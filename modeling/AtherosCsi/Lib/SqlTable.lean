import AtherosCsi.Lib.SqlText
import Mathlib.Data.Rat.Defs
import Mathlib.Algebra.Order.Ring.Int

/-! Tables whose key comes from a sequence. A sequence only grows and stands above every key of its table,
    so a new row gets a key that no row has, and the largest of all. -/

namespace Sql

/-! ### Cells -/

inductive ColType where
  | integer
  | bigint
  | real
  deriving DecidableEq, Repr

inductive Cell where
  | int (n : ℤ)
  | real (q : ℚ)
  deriving DecidableEq, Repr

def readInt (w : ℕ) (cs : List Char) : Option Cell :=
  (parseInt cs).bind fun n => if -(2 ^ (w - 1)) ≤ n ∧ n < 2 ^ (w - 1) then some (.int n) else none

/-- A number without exponent, with or without a fraction. -/
def parseReal (cs : List Char) : Option ℚ := do
  let fraction := (cs.dropWhile (· ≠ '.')).drop 1
  let whole ← parseInt (cs.takeWhile (· ≠ '.'))
  if fraction = [] then return whole
  let digits ← parseNat fraction
  let part : ℚ := digits / 10 ^ fraction.length
  return if cs.head? = some '-' then whole - part else whole + part

/-- What a literal stands for in a column, or `none` where the column does not take it. -/
def ColType.read : ColType → List Char → Option Cell
  | .integer, cs => readInt 32 cs
  | .bigint, cs => readInt 64 cs
  | .real, cs => (parseReal cs).map .real

theorem readInt_decimal {w : ℕ} {n : ℤ} (h : -(2 ^ (w - 1)) ≤ n ∧ n < 2 ^ (w - 1)) :
    readInt w (decimal n) = some (.int n) := by
  rw [readInt, parseInt_decimal, Option.bind_some, if_pos h]

/-! ### Rows -/

/-- A row: its key, and the cells of its other columns, where `none` is NULL. -/
structure Row (κ : Type) where
  id : ℤ
  cell : κ → Option Cell

section Read
variable {κ : Type} [DecidableEq κ]

/-- The cells for a list of values; columns without a value are NULL, and there must be a column for every
    value. -/
def readValues : List (κ × ColType) → List Value → Option (κ → Option Cell)
  | _, [] => some fun _ => none
  | [], _ :: _ => none
  | _ :: cols, .default :: vs => readValues cols vs
  | col :: cols, .literal cs :: vs => do
    let cell ← col.2.read cs
    let rest ← readValues cols vs
    return fun k => if k = col.1 then some cell else rest k

def readRow (cols : List (κ × ColType)) : List Value → Option (κ → Option Cell)
  | .default :: vs => readValues cols vs
  | _ => none

def assign : List κ → List Cell → κ → Option Cell
  | k :: ks, c :: cs => fun k' => if k' = k then some c else assign ks cs k'
  | _, _ => fun _ => none

inductive Reads : List (κ × ColType) → List (List Char) → List Cell → Prop
  | nil {cols} : Reads cols [] []
  | cons {k t cols text texts cell cells} (h : ColType.read t text = some cell) (hrest : Reads cols texts cells) :
    Reads ((k, t) :: cols) (text :: texts) (cell :: cells)

theorem Reads.readRow {cols : List (κ × ColType)} {texts : List (List Char)} {cells : List Cell}
    (h : Reads cols texts cells) : readRow cols (rowValues texts) = some (assign (cols.map Prod.fst) cells) := by
  have hvalues : readValues cols (texts.map .literal) = some (assign (cols.map Prod.fst) cells) := by
    induction h with
    | @nil cols =>
      cases cols <;> rfl
    | cons h _ ih =>
      simp only [List.map_cons, readValues, h, ih]
      rfl
  exact hvalues

end Read

/-! ### Tables -/

/-- A table and the sequence of its keys. The sequence is positive and stands above every key, as it does as long
    as all keys come from it; a table where someone has set a key by hand, or the sequence back, is none of these. -/
structure Table (κ : Type) where
  rows : List (Row κ)
  next : ℤ
  next_pos : 0 < next
  lt_next : ∀ r ∈ rows, r.id < next

namespace Table
variable {κ : Type}

/-- A new table, whose sequence starts with 1. -/
def empty : Table κ := ⟨[], 1, by decide, fun _ h => absurd h List.not_mem_nil⟩

/-- Numbers that are lost to the sequence. -/
def skip (t : Table κ) (n : ℕ) : Table κ where
  rows := t.rows
  next := t.next + n
  next_pos := by have := t.next_pos; omega
  lt_next r hr := by have := t.lt_next r hr; omega

def numbered (n : ℤ) : List (κ → Option Cell) → List (Row κ)
  | [] => []
  | c :: cs => ⟨n, c⟩ :: numbered (n + 1) cs

theorem mem_numbered {n : ℤ} {cs : List (κ → Option Cell)} {r : Row κ} (h : r ∈ numbered n cs) :
    n ≤ r.id ∧ r.id < n + cs.length := by
  induction cs generalizing n with
  | nil => cases h
  | cons c cs ih =>
    rcases List.mem_cons.mp h with rfl | h
    · simp
    · have := ih h
      simp only [List.length_cons]
      omega

@[simp] theorem cell_numbered (n : ℤ) (cs : List (κ → Option Cell)) : (numbered n cs).map Row.cell = cs := by
  induction cs generalizing n with
  | nil => rfl
  | cons c cs ih => rw [numbered, List.map_cons, ih]

theorem nodup_numbered (n : ℤ) (cs : List (κ → Option Cell)) : ((numbered n cs).map Row.id).Nodup := by
  induction cs generalizing n with
  | nil => exact .nil
  | cons c cs ih =>
    refine List.nodup_cons.mpr ⟨fun h => ?_, ih (n + 1)⟩
    obtain ⟨r, hr, hid⟩ := List.mem_map.mp h
    have hlt := (mem_numbered hr).1
    simp only at hid
    omega

def insert (t : Table κ) (cs : List (κ → Option Cell)) : Table κ where
  rows := t.rows ++ numbered t.next cs
  next := t.next + cs.length
  next_pos := by have := t.next_pos; omega
  lt_next r hr := by
    rcases List.mem_append.mp hr with hr | hr
    · have := t.lt_next r hr
      omega
    · exact (mem_numbered hr).2

theorem nodup_insert {t : Table κ} (h : (t.rows.map Row.id).Nodup) (cs : List (κ → Option Cell)) :
    ((t.insert cs).rows.map Row.id).Nodup := by
  simp only [insert, List.map_append]
  refine List.nodup_append.mpr ⟨h, nodup_numbered _ _, ?_⟩
  rintro a ha b hb rfl
  obtain ⟨r, hr, rfl⟩ := List.mem_map.mp ha
  obtain ⟨r', hr', hid⟩ := List.mem_map.mp hb
  have hold := t.lt_next r hr
  have hnew := (mem_numbered hr').1
  omega

/-- Inserts all rows, or none when one of them does not fit the columns or the keys no longer fit an INTEGER. -/
def insert? [DecidableEq κ] (t : Table κ) (cols : List (κ × ColType)) (rows : List (List Value)) : Option (Table κ) := do
  let cs ← rows.mapM (readRow cols)
  if t.next + cs.length ≤ 2 ^ 31 then return t.insert cs else none

def latest (t : Table κ) : Option ℤ := (t.rows.map Row.id).max?

theorem latest_insert_one (t : Table κ) (c : κ → Option Cell) : (t.insert [c]).latest = some t.next := by
  rw [latest, List.max?_eq_some_iff]
  refine ⟨?_, ?_⟩
  · simp [insert, numbered]
  · intro n hn
    obtain ⟨r, hr, rfl⟩ := List.mem_map.mp hn
    have := (t.insert [c]).lt_next r hr
    simp only [insert, List.length_singleton] at this
    omega

end Table

end Sql
