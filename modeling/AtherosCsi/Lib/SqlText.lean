import Mathlib.Algebra.Group.Int.Defs
import Mathlib.Algebra.Group.Nat.Defs
import Mathlib.Data.Int.Order.Basic
import Mathlib.Data.List.Basic

/-! The text of SQL statements, as far as statements that insert rows of literals need it: decimal numbers,
    tokens, and lists of rows behind `VALUES`. `lex` and `parseRows` read one character or token at a time,
    so what they make of a text follows piece by piece. -/

namespace Sql

/-! ### Decimal numbers -/

def decimal (n : ℤ) : List Char := if n < 0 then '-' :: Nat.toDigits 10 n.natAbs else Nat.toDigits 10 n.natAbs

theorem length_decimal_le {n : ℤ} {k : ℕ} (hk : 0 < k) (h0 : 0 ≤ n) (hn : n < 10 ^ k) : (decimal n).length ≤ k := by
  obtain ⟨m, rfl⟩ := Int.eq_ofNat_of_zero_le h0
  rw [decimal, if_neg (Int.not_lt.mpr h0), Int.natAbs_natCast]
  exact (Nat.length_toDigits_le_iff (by decide) hk).mpr (by exact_mod_cast hn)

theorem length_decimal_signed {n : ℤ} {k : ℕ} (hk : 0 < k) (hn : n.natAbs < 10 ^ k) : (decimal n).length ≤ k + 1 := by
  have hdigits : (Nat.toDigits 10 n.natAbs).length ≤ k := (Nat.length_toDigits_le_iff (by decide) hk).mpr hn
  unfold decimal
  split
  · rw [List.length_cons]
    exact Nat.succ_le_succ hdigits
  · exact Nat.le_succ_of_le hdigits

def parseNat (cs : List Char) : Option ℕ :=
  if cs ≠ [] ∧ cs.all Char.isDigit then some (Nat.ofDigitChars 10 cs 0) else none

/-- The number that a text with an optional minus sign stands for. -/
def parseInt : List Char → Option ℤ
  | '-' :: cs => (parseNat cs).map fun n : ℕ => -(n : ℤ)
  | cs => (parseNat cs).map fun n : ℕ => (n : ℤ)

theorem parseNat_toDigits (n : ℕ) : parseNat (Nat.toDigits 10 n) = some n := by
  have hdigits : (Nat.toDigits 10 n).all Char.isDigit := by
    rw [List.all_eq_true]
    exact fun c hc => Nat.isDigit_of_mem_toDigits (by decide) (by decide) hc
  rw [parseNat, if_pos ⟨Nat.toDigits_ne_nil, hdigits⟩, Nat.ofDigitChars_ten_toDigits]

theorem parseInt_decimal (n : ℤ) : parseInt (decimal n) = some n := by
  unfold decimal
  split
  · rw [parseInt, parseNat_toDigits, Option.map_some]
    congr 1
    omega
  · have hhead : ∀ cs, Nat.toDigits 10 n.natAbs ≠ '-' :: cs := fun cs h => by
      have hmem : '-' ∈ Nat.toDigits 10 n.natAbs := by
        rw [h]
        exact List.mem_cons_self
      exact absurd (Nat.isDigit_of_mem_toDigits (by decide) (by decide) hmem) (by decide)
    unfold parseInt
    split
    · rename_i cs h
      exact absurd h (hhead cs)
    · rw [parseNat_toDigits, Option.map_some]
      congr 1
      omega

theorem quote_not_mem_decimal (n : ℤ) : '\'' ∉ decimal n := by
  have hdigits : '\'' ∉ Nat.toDigits 10 n.natAbs := fun h =>
    absurd (Nat.isDigit_of_mem_toDigits (by decide) (by decide) h) (by decide)
  unfold decimal
  split
  · simp [hdigits]
  · exact hdigits

/-! ### Tokens -/

inductive Token where
  | word (cs : List Char)
  | literal (cs : List Char)
  | lparen
  | rparen
  | comma
  | semicolon
  deriving DecidableEq, Repr

/-- Where the lexer stands: between two tokens, or in a word or literal of which it has read `cs`. -/
inductive LexState where
  | between
  | inWord (cs : List Char)
  | inLiteral (cs : List Char)

def isWordChar (c : Char) : Bool := c.isAlphanum || c == '_'

def symbol : Char → Option Token
  | '(' => some .lparen
  | ')' => some .rparen
  | ',' => some .comma
  | ';' => some .semicolon
  | _ => none

/-- The tokens of a text, or `none` where a literal does not end or a character belongs to no token. -/
def lexFrom : LexState → List Char → Option (List Token)
  | .between, [] => some []
  | .inWord cs, [] => some [.word cs]
  | .inLiteral _, [] => none
  | .inLiteral cs, c :: rest =>
    if c = '\'' then (lexFrom .between rest).map (.literal cs :: ·) else lexFrom (.inLiteral (cs ++ [c])) rest
  | .inWord cs, c :: rest =>
    if isWordChar c then lexFrom (.inWord (cs ++ [c])) rest
    else if c = ' ' then (lexFrom .between rest).map (.word cs :: ·)
    else if c = '\'' then (lexFrom (.inLiteral []) rest).map (.word cs :: ·)
    else (symbol c).bind fun t => (lexFrom .between rest).map (.word cs :: t :: ·)
  | .between, c :: rest =>
    if isWordChar c then lexFrom (.inWord [c]) rest
    else if c = ' ' then lexFrom .between rest
    else if c = '\'' then lexFrom (.inLiteral []) rest
    else (symbol c).bind fun t => (lexFrom .between rest).map (t :: ·)

def lex (text : List Char) : Option (List Token) := lexFrom .between text

theorem lex_space (rest : List Char) : lex (' ' :: rest) = lex rest := rfl

theorem lex_lparen (rest : List Char) : lex ('(' :: rest) = (lex rest).map (.lparen :: ·) := rfl

theorem lex_comma (rest : List Char) : lex (',' :: rest) = (lex rest).map (.comma :: ·) := rfl

theorem lex_semicolon (rest : List Char) : lex (';' :: rest) = (lex rest).map (.semicolon :: ·) := rfl

theorem lexFrom_inLiteral (cs rest : List Char) {text : List Char} (h : '\'' ∉ text) :
    lexFrom (.inLiteral cs) (text ++ '\'' :: rest) = (lex rest).map (.literal (cs ++ text) :: ·) := by
  induction text generalizing cs with
  | nil => rw [List.nil_append, lexFrom, if_pos rfl, List.append_nil, lex]
  | cons c text ih =>
    have hc : c ≠ '\'' := fun hc => h (hc ▸ List.mem_cons_self)
    rw [List.cons_append, lexFrom, if_neg hc, ih _ fun hm => h (List.mem_cons_of_mem c hm), List.append_assoc]
    rfl

def quoted (cs : List Char) : List Char := '\'' :: (cs ++ ['\''])

theorem lex_quoted (rest : List Char) {cs : List Char} (h : '\'' ∉ cs) :
    lex (quoted cs ++ rest) = (lex rest).map (.literal cs :: ·) := by
  rw [quoted, List.cons_append, List.append_assoc]
  exact lexFrom_inLiteral [] rest h

theorem lexFrom_inWord (cs rest : List Char) {c : Char} {t : Token} (hc : isWordChar c = false) (ht : symbol c = some t) :
    lexFrom (.inWord cs) (c :: rest) = (lex (c :: rest)).map (.word cs :: ·) := by
  have hspace : c ≠ ' ' := by
    rintro rfl
    cases ht
  have hquote : c ≠ '\'' := by
    rintro rfl
    cases ht
  simp only [lexFrom, lex, hc, hspace, hquote, ht, Bool.false_eq_true, if_false, Option.bind_some, Option.map_map]
  rfl

/-! ### Rows -/

inductive Value where
  | default
  | literal (cs : List Char)
  deriving DecidableEq, Repr

def defaultWord : List Char := ['D', 'E', 'F', 'A', 'U', 'L', 'T']

/-- What the parser expects: a row, a value in a row, what follows a value, or what follows a row. -/
inductive Expect where
  | row
  | value
  | moreValues
  | moreRows

/-- The rows behind `VALUES`, after the rows `rows` and the values `row` of the next one. -/
def parseRows : Expect → List (List Value) → List Value → List Token → Option (List (List Value))
  | .row, rows, _, .lparen :: ts => parseRows .value rows [] ts
  | .value, rows, row, .word w :: ts =>
    if w = defaultWord then parseRows .moreValues rows (row ++ [.default]) ts else none
  | .value, rows, row, .literal cs :: ts => parseRows .moreValues rows (row ++ [.literal cs]) ts
  | .moreValues, rows, row, .comma :: ts => parseRows .value rows row ts
  | .moreValues, rows, row, .rparen :: ts => parseRows .moreRows (rows ++ [row]) [] ts
  | .moreRows, rows, _, .comma :: ts => parseRows .row rows [] ts
  | .moreRows, rows, _, [.semicolon] => some rows
  | .moreRows, rows, _, [] => some rows
  | _, _, _, _ => none

/-- The text of a row whose first column gets its default and whose other columns get literals. -/
def rowText (vals : List (List Char)) : List Char :=
  '(' :: (defaultWord ++ (vals.flatMap (fun v => ',' :: quoted v) ++ [')']))

def rowTokens (vals : List (List Char)) : List Token :=
  .lparen :: .word defaultWord :: (vals.flatMap (fun v => [.comma, .literal v]) ++ [.rparen])

def rowValues (vals : List (List Char)) : List Value := .default :: vals.map .literal

section Rows
variable {vals : List (List Char)} (h : ∀ v ∈ vals, '\'' ∉ v)
include h

theorem lex_values (rest : List Char) :
    lex (vals.flatMap (fun v => ',' :: quoted v) ++ (')' :: rest)) =
      (lex rest).map (vals.flatMap (fun v => [.comma, .literal v]) ++ .rparen :: ·) := by
  induction vals with
  | nil => rfl
  | cons v vals ih =>
    have htail := ih fun w hw => h w (List.mem_cons_of_mem v hw)
    rw [List.flatMap_cons, List.append_assoc, List.cons_append, lex_comma, lex_quoted _ (h v List.mem_cons_self), htail,
      Option.map_map, Option.map_map]
    rfl

theorem lex_rowText (rest : List Char) : lex (rowText vals ++ rest) = (lex rest).map (rowTokens vals ++ ·) := by
  have hstart : lex (rowText vals ++ rest) =
      (lexFrom (.inWord defaultWord) (vals.flatMap (fun v => ',' :: quoted v) ++ (')' :: rest))).map (.lparen :: ·) := by
    rw [rowText, List.cons_append, List.append_assoc, List.append_assoc, lex_lparen]
    rfl
  -- Behind `DEFAULT` stands a comma or the parenthesis that ends the row.
  have hword : lexFrom (.inWord defaultWord) (vals.flatMap (fun v => ',' :: quoted v) ++ (')' :: rest)) =
      (lex (vals.flatMap (fun v => ',' :: quoted v) ++ (')' :: rest))).map (.word defaultWord :: ·) := by
    cases vals with
    | nil => exact lexFrom_inWord _ _ rfl rfl
    | cons v vals => exact lexFrom_inWord _ _ rfl rfl
  rw [hstart, hword, lex_values h, Option.map_map, Option.map_map]
  congr 1
  funext ts
  simp [rowTokens]

end Rows

theorem parseRows_values (vals : List (List Char)) (rows : List (List Value)) (row : List Value) (ts : List Token) :
    parseRows .moreValues rows row (vals.flatMap (fun v => [.comma, .literal v]) ++ .rparen :: ts) =
      parseRows .moreRows (rows ++ [row ++ vals.map .literal]) [] ts := by
  induction vals generalizing row with
  | nil => simp [parseRows]
  | cons v vals ih =>
    rw [List.flatMap_cons, List.append_assoc]
    simp only [List.cons_append, List.nil_append, parseRows]
    rw [ih]
    simp

theorem parseRows_row (vals : List (List Char)) (rows : List (List Value)) (ts : List Token) :
    parseRows .row rows [] (rowTokens vals ++ ts) = parseRows .moreRows (rows ++ [rowValues vals]) [] ts := by
  simp only [rowTokens, List.cons_append, List.append_assoc, List.nil_append, parseRows, if_true]
  exact parseRows_values vals rows [.default] ts

theorem parseRows_rows {ts : List Token} (hts : ts = [] ∨ ts = [.semicolon]) (last : List (List Char))
    (init : List (List (List Char))) (rows : List (List Value)) :
    parseRows .row rows [] (init.flatMap (fun v => rowTokens v ++ [.comma]) ++ (rowTokens last ++ ts)) =
      some (rows ++ (init ++ [last]).map rowValues) := by
  induction init generalizing rows with
  | nil =>
    rw [List.flatMap_nil, List.nil_append, parseRows_row]
    rcases hts with rfl | rfl <;> rfl
  | cons v init ih =>
    rw [List.flatMap_cons, List.append_assoc, List.append_assoc, parseRows_row, List.singleton_append, parseRows, ih]
    simp

end Sql
