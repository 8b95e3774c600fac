import Mathlib.Algebra.Group.Nat.Defs
import Mathlib.Data.List.TakeWhile

/-! Texts read by `scanf`, as the C standard defines it. A format is a list of directives; each takes its part
    of the text, and the first that finds none ends the reading, so the values stored are those of the
    conversions before it. `%x` takes the longest text that is, or could go on to be, a hexadecimal number, and
    fails if that is no number yet: what stands behind `0x` decides whether it reads a number at all. -/

namespace Scanf

/-! ### Characters -/

def isSpace (c : Char) : Bool :=
  c = ' ' || c = '\t' || c = '\n' || c = '\x0b' || c = '\x0c' || c = '\r'

def isHexDigit (c : Char) : Bool := c.isDigit || ('a' ≤ c && c ≤ 'f') || ('A' ≤ c && c ≤ 'F')

def hexDigit (c : Char) : ℕ :=
  if c.isDigit then c.toNat - '0'.toNat
  else if 'a' ≤ c then c.toNat - 'a'.toNat + 10
  else c.toNat - 'A'.toNat + 10

def hexValue (digits : List Char) : ℕ := digits.foldl (fun n c => 16 * n + hexDigit c) 0

theorem not_isSpace_of_isHexDigit {c : Char} (h : isHexDigit c = true) : isSpace c = false := by
  by_contra hspace
  simp only [isSpace, Bool.or_eq_true, decide_eq_true_eq, Bool.not_eq_false] at hspace
  rcases hspace with ((((rfl | rfl) | rfl) | rfl) | rfl) | rfl <;> exact absurd h (by decide)

/-! ### One number -/

def splitSign : List Char → List Char × List Char
  | '-' :: cs => (['-'], cs)
  | '+' :: cs => (['+'], cs)
  | cs => ([], cs)

def splitMark : List Char → List Char × List Char
  | '0' :: 'x' :: cs => (['0', 'x'], cs)
  | '0' :: 'X' :: cs => (['0', 'X'], cs)
  | cs => ([], cs)

/-- The value of a number for an `unsigned int`. Where it does not fit, the standard leaves the result open:
    that is `wide`. -/
def convert (wide : List Char → UInt32) (sign mark digits : List Char) : UInt32 :=
  if hexValue digits < 2 ^ 32 then
    if sign = ['-'] then -UInt32.ofNat (hexValue digits) else UInt32.ofNat (hexValue digits)
  else wide (sign ++ mark ++ digits)

/-- `%x`: the value, and the text behind the number. -/
def scanHex (wide : List Char → UInt32) (text : List Char) : Option (UInt32 × List Char) :=
  let (sign, cs) := splitSign (text.dropWhile isSpace)
  let (mark, cs) := splitMark cs
  let digits := cs.takeWhile isHexDigit
  if digits = [] then none else some (convert wide sign mark digits, cs.dropWhile isHexDigit)

inductive Directive where
  | hex
  | literal (c : Char)
  deriving DecidableEq, Repr

/-- The values that `sscanf` stores, in order. -/
def scan (wide : List Char → UInt32) : List Directive → List Char → List UInt32
  | [], _ => []
  | .hex :: ds, text =>
    match scanHex wide text with
    | none => []
    | some (v, rest) => v :: scan wide ds rest
  | .literal _ :: _, [] => []
  | .literal c :: ds, c' :: rest => if c' = c then scan wide ds rest else []

/-! ### What `%x` accepts -/

/-- A hexadecimal number with the white space in front of it. -/
structure HexText where
  spaces : List Char
  sign : List Char
  mark : List Char
  digits : List Char
  all_spaces : ∀ c ∈ spaces, isSpace c = true
  sign_mem : sign = [] ∨ sign = ['+'] ∨ sign = ['-']
  mark_mem : mark = [] ∨ mark = ['0', 'x'] ∨ mark = ['0', 'X']
  digits_ne : digits ≠ []
  all_digits : ∀ c ∈ digits, isHexDigit c = true

namespace HexText

def text (t : HexText) : List Char := t.spaces ++ (t.sign ++ (t.mark ++ t.digits))

/-- What follows does not continue the number: no further digit, and no `x` behind a bare `0`. -/
structure EndsAt (t : HexText) (rest : List Char) : Prop where
  digit : ∀ c ∈ rest.head?, isHexDigit c = false
  mark : t.mark = [] → t.digits = ['0'] → ∀ c ∈ rest.head?, c ≠ 'x' ∧ c ≠ 'X'

theorem endsAt_colon (t : HexText) (rest : List Char) : t.EndsAt (':' :: rest) where
  digit c hc := by
    obtain rfl := Option.some.inj hc
    decide
  mark _ _ c hc := by
    obtain rfl := Option.some.inj hc
    decide

end HexText

theorem splitSign_spec (cs : List Char) :
    cs = (splitSign cs).1 ++ (splitSign cs).2 ∧
      ((splitSign cs).1 = [] ∨ (splitSign cs).1 = ['+'] ∨ (splitSign cs).1 = ['-']) := by
  unfold splitSign
  split <;> simp

theorem splitMark_spec (cs : List Char) :
    cs = (splitMark cs).1 ++ (splitMark cs).2 ∧
      ((splitMark cs).1 = [] ∨ (splitMark cs).1 = ['0', 'x'] ∨ (splitMark cs).1 = ['0', 'X']) := by
  unfold splitMark
  split <;> simp

/-- What `%x` has read is a number, and it has read as far as it goes. -/
theorem scanHex_sound {wide : List Char → UInt32} {cs rest : List Char} {v : UInt32}
    (h : scanHex wide cs = some (v, rest)) : ∃ t : HexText, cs = t.text ++ rest ∧ t.EndsAt rest := by
  obtain ⟨hsign, hsigns⟩ := splitSign_spec (cs.dropWhile isSpace)
  obtain ⟨hmark, hmarks⟩ := splitMark_spec (splitSign (cs.dropWhile isSpace)).2
  simp only [scanHex] at h
  generalize hs : splitSign (cs.dropWhile isSpace) = s at h hsign hsigns hmark hmarks
  generalize hm : splitMark s.2 = m at h hmark hmarks
  split at h
  · cases h
  · rename_i hne
    obtain ⟨-, rfl⟩ := Prod.mk.inj (Option.some.inj h)
    refine ⟨⟨cs.takeWhile isSpace, s.1, m.1, m.2.takeWhile isHexDigit, fun c hc => List.mem_takeWhile_imp hc, hsigns, hmarks,
      hne, fun c hc => List.mem_takeWhile_imp hc⟩, ?_, ?_, ?_⟩
    · calc
        cs = cs.takeWhile isSpace ++ cs.dropWhile isSpace := List.takeWhile_append_dropWhile.symm
        _ = cs.takeWhile isSpace ++ (s.1 ++ (m.1 ++ (m.2.takeWhile isHexDigit ++ m.2.dropWhile isHexDigit))) := by
          rw [hsign, List.takeWhile_append_dropWhile, ← hmark]
        _ = _ := by simp only [HexText.text, List.append_assoc]
    · intro c hc
      have hstop := List.head?_dropWhile_not isHexDigit m.2
      rw [hc] at hstop
      simpa using hstop
    · -- A bare `0` in front of an `x` would have been taken for the mark.
      intro hnil hzero c hc
      simp only at hnil hzero
      have hsplit := List.takeWhile_append_dropWhile (p := isHexDigit) (l := m.2)
      rw [hzero] at hsplit
      have hbody : s.2 = '0' :: m.2.dropWhile isHexDigit := by
        rw [hmark, hnil, List.nil_append]
        exact hsplit.symm
      obtain ⟨cs', hcs'⟩ : ∃ cs', m.2.dropWhile isHexDigit = c :: cs' := List.head?_eq_some_iff.mp hc
      rw [hcs'] at hbody
      rw [← hm, hbody] at hnil
      constructor
      · rintro rfl
        cases hnil
      · rintro rfl
        cases hnil

section Complete
variable (t : HexText) {rest : List Char}

theorem HexText.head_body (rest : List Char) : ∃ c cs, t.mark ++ (t.digits ++ rest) = c :: cs ∧ isHexDigit c = true := by
  obtain ⟨d, ds, hds⟩ := List.exists_cons_of_ne_nil t.digits_ne
  rcases t.mark_mem with hmark | hmark | hmark
  · exact ⟨d, ds ++ rest, by rw [hmark, hds]; rfl, t.all_digits d (by rw [hds]; exact List.mem_cons_self)⟩
  · exact ⟨'0', _, by rw [hmark]; rfl, by decide⟩
  · exact ⟨'0', _, by rw [hmark]; rfl, by decide⟩

theorem splitSign_of_isHexDigit {c : Char} {cs : List Char} (h : isHexDigit c = true) :
    splitSign (c :: cs) = ([], c :: cs) := by
  unfold splitSign
  split
  · rename_i heq
    cases heq
    exact absurd h (by decide)
  · rename_i heq
    cases heq
    exact absurd h (by decide)
  · rfl

theorem HexText.splitSign_eq (rest : List Char) :
    splitSign (t.sign ++ (t.mark ++ (t.digits ++ rest))) = (t.sign, t.mark ++ (t.digits ++ rest)) := by
  rcases t.sign_mem with hsign | hsign | hsign
  · obtain ⟨c, cs, hbody, hc⟩ := t.head_body rest
    rw [hsign, hbody, List.nil_append, splitSign_of_isHexDigit hc]
  · rw [hsign]
    rfl
  · rw [hsign]
    rfl

theorem HexText.dropWhile_eq (rest : List Char) :
    (t.text ++ rest).dropWhile isSpace = t.sign ++ (t.mark ++ (t.digits ++ rest)) := by
  have hspaces : (t.text ++ rest).dropWhile isSpace = (t.sign ++ (t.mark ++ (t.digits ++ rest))).dropWhile isSpace := by
    rw [text, List.append_assoc, List.dropWhile_append_of_pos t.all_spaces, List.append_assoc, List.append_assoc]
  rw [hspaces]
  rcases t.sign_mem with hsign | hsign | hsign
  · obtain ⟨c, cs, hbody, hc⟩ := t.head_body rest
    rw [hsign, hbody, List.nil_append, List.dropWhile_cons_of_neg (by rw [not_isSpace_of_isHexDigit hc]; decide)]
  · rw [hsign]
    rfl
  · rw [hsign]
    rfl

variable {t} in
theorem HexText.EndsAt.no_mark (h : t.EndsAt rest) (hmark : t.mark = []) {x : Char} (hx : x = 'x' ∨ x = 'X') (cs : List Char) :
    t.digits ++ rest ≠ '0' :: x :: cs := by
  intro heq
  have hnot : isHexDigit x = false := by
    rcases hx with rfl | rfl
    · decide
    · decide
  obtain ⟨d, ds, hds⟩ := List.exists_cons_of_ne_nil t.digits_ne
  rw [hds, List.cons_append] at heq
  obtain ⟨rfl, htail⟩ := List.cons.inj heq
  cases ds with
  | nil =>
    have hhead : x ∈ rest.head? := by
      rw [List.nil_append] at htail
      rw [htail]
      exact rfl
    have := h.mark hmark hds x hhead
    rcases hx with rfl | rfl
    · exact this.1 rfl
    · exact this.2 rfl
  | cons e es =>
    obtain ⟨rfl, -⟩ := List.cons.inj htail
    have := t.all_digits e (by rw [hds]; simp)
    rw [hnot] at this
    cases this

theorem HexText.splitMark_eq (h : t.EndsAt rest) : splitMark (t.mark ++ (t.digits ++ rest)) = (t.mark, t.digits ++ rest) := by
  rcases t.mark_mem with hmark | hmark | hmark
  · rw [hmark, List.nil_append]
    unfold splitMark
    split
    · rename_i heq
      exact absurd heq (h.no_mark hmark (Or.inl rfl) _)
    · rename_i heq
      exact absurd heq (h.no_mark hmark (Or.inr rfl) _)
    · rfl
  · rw [hmark]
    rfl
  · rw [hmark]
    rfl

/-- Every number that ends where the text goes on otherwise is read. -/
theorem scanHex_text (wide : List Char → UInt32) (h : t.EndsAt rest) :
    scanHex wide (t.text ++ rest) = some (convert wide t.sign t.mark t.digits, rest) := by
  have hstop : rest.takeWhile isHexDigit = [] ∧ rest.dropWhile isHexDigit = rest := by
    cases rest with
    | nil => exact ⟨rfl, rfl⟩
    | cons c cs =>
      have hc : ¬ isHexDigit c = true := by rw [h.digit c rfl]; decide
      exact ⟨List.takeWhile_cons_of_neg hc, List.dropWhile_cons_of_neg hc⟩
  have htake : (t.digits ++ rest).takeWhile isHexDigit = t.digits := by
    rw [List.takeWhile_append_of_pos t.all_digits, hstop.1, List.append_nil]
  have hdrop : (t.digits ++ rest).dropWhile isHexDigit = rest := by
    rw [List.dropWhile_append_of_pos t.all_digits, hstop.2]
  simp only [scanHex, t.dropWhile_eq, t.splitSign_eq, t.splitMark_eq h, htake, hdrop, if_neg t.digits_ne]

end Complete

/-! ### Numbers between colons -/

/-- `n` numbers, a colon behind each, and one number more with any text behind it. -/
def Numbers : ℕ → List Char → Prop
  | 0, text => ∃ (t : HexText) (rest : List Char), text = t.text ++ rest ∧ t.EndsAt rest
  | n + 1, text => ∃ (t : HexText) (rest : List Char), text = t.text ++ ':' :: rest ∧ Numbers n rest

/-- The directives of `%x:%x:...:%x` with `n` colons. -/
def colonFormat : ℕ → List Directive
  | 0 => [.hex]
  | n + 1 => .hex :: .literal ':' :: colonFormat n

theorem scan_hex_cons (wide : List Char → UInt32) (ds : List Directive) (text : List Char) :
    scan wide (.hex :: ds) text = match scanHex wide text with
      | none => []
      | some (v, rest) => v :: scan wide ds rest := rfl

theorem length_scan_le (wide : List Char → UInt32) (n : ℕ) (text : List Char) :
    (scan wide (colonFormat n) text).length ≤ n + 1 := by
  induction n generalizing text with
  | zero =>
    rw [colonFormat, scan_hex_cons]
    split
    · simp
    · simp [scan]
  | succ n ih =>
    rw [colonFormat, scan_hex_cons]
    split
    · simp
    · rename_i v rest _
      cases rest with
      | nil => simp [scan]
      | cons c rest =>
        have := ih rest
        rw [scan]
        split
        · rw [List.length_cons]
          omega
        · simp

/-- All conversions are made exactly for a text that starts with so many numbers. -/
theorem length_scan_iff (wide : List Char → UInt32) (n : ℕ) (text : List Char) :
    (scan wide (colonFormat n) text).length = n + 1 ↔ Numbers n text := by
  induction n generalizing text with
  | zero =>
    rw [colonFormat, scan_hex_cons, Numbers]
    constructor
    · intro hlen
      split at hlen
      · cases hlen
      · rename_i v rest hscan
        obtain ⟨t, ht, hends⟩ := scanHex_sound hscan
        exact ⟨t, rest, ht, hends⟩
    · rintro ⟨t, rest, rfl, hends⟩
      rw [scanHex_text t wide hends]
      rfl
  | succ n ih =>
    rw [colonFormat, scan_hex_cons, Numbers]
    constructor
    · intro hlen
      split at hlen
      · cases hlen
      · rename_i v rest hscan
        obtain ⟨t, ht, -⟩ := scanHex_sound hscan
        cases rest with
        | nil => cases hlen
        | cons c rest =>
          rw [scan] at hlen
          split at hlen
          · rename_i hc
            subst hc
            exact ⟨t, rest, ht, (ih rest).mp (Nat.succ.inj hlen)⟩
          · cases hlen
    · rintro ⟨t, rest, rfl, hnumbers⟩
      rw [scanHex_text t wide (t.endsAt_colon rest)]
      simp only [scan, if_true, List.length_cons, (ih rest).mpr hnumbers]

/-- The numbers of a list of texts with colons between them come back in their order. -/
theorem scan_intercalate (wide : List Char → UInt32) (t : HexText) (ts : List HexText) :
    scan wide (colonFormat ts.length) ([':'].intercalate ((t :: ts).map HexText.text)) =
      (t :: ts).map fun t => convert wide t.sign t.mark t.digits := by
  induction ts generalizing t with
  | nil =>
    have hend : t.EndsAt [] := {
      digit := fun c hc => (Option.not_mem_none c hc).elim
      mark := fun _ _ c hc => (Option.not_mem_none c hc).elim }
    have hscan := scanHex_text t wide hend
    rw [List.append_nil] at hscan
    rw [List.length_nil, colonFormat, scan_hex_cons, List.map_cons, List.map_nil, List.intercalate_singleton, hscan]
    rfl
  | cons t' ts ih =>
    have htext : [':'].intercalate ((t :: t' :: ts).map HexText.text) =
        t.text ++ ':' :: [':'].intercalate ((t' :: ts).map HexText.text) := by
      simp [List.intercalate_cons_cons]
    rw [htext, List.length_cons, colonFormat, scan_hex_cons, scanHex_text t wide (t.endsAt_colon _)]
    simp only [scan, if_true]
    rw [ih t']
    rfl

end Scanf
