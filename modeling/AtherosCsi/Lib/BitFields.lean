import AtherosCsi.Lib.LittleEndian

/-! Fields of different widths packed into one number, each behind the other and the first one in the lowest
    bits. `pack` makes the number, `slice` reads bits of it at any place. `Holds` says that a number holds
    fields from a bit on; it goes through the layout of the fields, and it means that their bits are packed
    there. -/

namespace BitFields
open LittleEndian

structure Field where
  width : ℕ
  value : ℕ
  value_lt : value < 2 ^ width

def totalWidth (fs : List Field) : ℕ := (fs.map Field.width).sum

def pack : List Field → ℕ
  | [] => 0
  | f :: fs => f.value + 2 ^ f.width * pack fs

/-- The `w` bits of `v` from bit `i` on. -/
def slice (w v i : ℕ) : ℕ := v / 2 ^ i % 2 ^ w

def Holds (v : ℕ) : ℕ → List Field → Prop
  | _, [] => True
  | i, f :: fs => slice f.width v i = f.value ∧ Holds v (i + f.width) fs

@[simp] theorem totalWidth_nil : totalWidth [] = 0 := rfl

@[simp] theorem totalWidth_cons (f : Field) (fs : List Field) : totalWidth (f :: fs) = f.width + totalWidth fs := by
  simp [totalWidth]

@[simp] theorem totalWidth_append (fs gs : List Field) : totalWidth (fs ++ gs) = totalWidth fs + totalWidth gs := by
  simp [totalWidth]

theorem pack_lt (fs : List Field) : pack fs < 2 ^ totalWidth fs := by
  induction fs with
  | nil => exact Nat.one_pos
  | cons f fs ih =>
    have hf := f.value_lt
    rw [pack, totalWidth_cons, Nat.pow_add]
    calc f.value + 2 ^ f.width * pack fs < 2 ^ f.width * (pack fs + 1) := by rw [Nat.mul_add, Nat.mul_one]; omega
      _ ≤ 2 ^ f.width * 2 ^ totalWidth fs := Nat.mul_le_mul_left _ ih

theorem slice_lt (w v i : ℕ) : slice w v i < 2 ^ w := Nat.mod_lt _ (Nat.two_pow_pos w)

theorem slice_zero {w v : ℕ} (h : v < 2 ^ w) : slice w v 0 = v := by
  rw [slice, Nat.pow_zero, Nat.div_one, Nat.mod_eq_of_lt h]

/-- Two slices next to each other are one. -/
theorem slice_add (w w' v i : ℕ) : slice (w + w') v i = slice w v i + 2 ^ w * slice w' v (i + w) := by
  rw [slice, slice, slice, Nat.pow_add 2 w w', Nat.mod_mul, Nat.div_div_eq_div_mul, ← Nat.pow_add]

/-- A number holds fields exactly when their bits are packed there. -/
theorem holds_iff {v i : ℕ} {fs : List Field} : Holds v i fs ↔ slice (totalWidth fs) v i = pack fs := by
  induction fs generalizing i with
  | nil => simp [Holds, slice, pack, Nat.mod_one]
  | cons f fs ih =>
    rw [Holds, ih, totalWidth_cons, slice_add, pack]
    constructor
    · rintro ⟨hf, hfs⟩
      rw [hf, hfs]
    · intro h
      have hlow : slice f.width v i = f.value := by
        have hmod := congrArg (· % 2 ^ f.width) h
        simpa only [Nat.add_mul_mod_self_left, Nat.mod_eq_of_lt (slice_lt _ _ _), Nat.mod_eq_of_lt f.value_lt] using hmod
      rw [hlow] at h
      exact ⟨hlow, Nat.eq_of_mul_eq_mul_left (Nat.two_pow_pos _) (Nat.add_left_cancel h)⟩

theorem holds_append {v i : ℕ} {fs gs : List Field} :
    Holds v i (fs ++ gs) ↔ Holds v i fs ∧ Holds v (i + totalWidth fs) gs := by
  induction fs generalizing i with
  | nil => simp [Holds]
  | cons f fs ih => rw [List.cons_append, Holds, Holds, ih, totalWidth_cons, Nat.add_assoc, and_assoc]

section Blocks
variable {f : ℕ → List Field} {w : ℕ} (hf : ∀ i, totalWidth (f i) = w)
include hf

theorem totalWidth_flatMap_range (n : ℕ) : totalWidth ((List.range n).flatMap f) = n * w := by
  induction n with
  | zero => simp
  | succ n ih => rw [List.range_succ, List.flatMap_append, totalWidth_append, ih, List.flatMap_singleton, hf, Nat.succ_mul]

/-- Blocks of one width. -/
theorem holds_flatMap_range {v i n : ℕ} : Holds v i ((List.range n).flatMap f) ↔ ∀ k < n, Holds v (i + k * w) (f k) := by
  induction n with
  | zero => simp [Holds]
  | succ n ih =>
    rw [List.range_succ, List.flatMap_append, holds_append, ih, List.flatMap_singleton, totalWidth_flatMap_range hf,
      Nat.forall_lt_succ_right]

end Blocks

/-! ### Bytes -/

/-- Bits that end within `xs` do not depend on the bytes that follow. -/
theorem slice_leVal_append {w i : ℕ} {xs : List UInt8} (h : i + w ≤ 8 * xs.length) (ys : List UInt8) :
    slice w (leVal (xs ++ ys)) i = slice w (leVal xs) i := by
  have hpow : 256 ^ xs.length * leVal ys = 2 ^ i * (2 ^ w * (2 ^ (8 * xs.length - (i + w)) * leVal ys)) := by
    rw [← Nat.mul_assoc, ← Nat.mul_assoc, ← Nat.pow_add, ← Nat.pow_add, Nat.add_sub_cancel' h, Nat.pow_mul]
  rw [slice, leVal_append, hpow, Nat.add_mul_div_left _ _ (Nat.two_pow_pos i), Nat.add_mul_mod_self_left, slice]

theorem leVal_drop (bs : List UInt8) (q : ℕ) : leVal (bs.drop q) = (bs.getD q 0).toNat + 256 * leVal (bs.drop (q + 1)) := by
  rcases Nat.lt_or_ge q bs.length with hq | hq
  · have hbyte : bs.getD q 0 = bs[q] := by simp [List.getD_eq_getElem?_getD, hq]
    rw [List.drop_eq_getElem_cons hq, leVal_cons, hbyte]
  · have hbyte : bs.getD q 0 = 0 := by simp [List.getD_eq_getElem?_getD, List.getElem?_eq_none hq]
    rw [List.drop_of_length_le hq, List.drop_of_length_le (Nat.le_succ_of_le hq), hbyte]
    rfl

/-- The byte that begins at any bit, from the two bytes that hold it. -/
theorem slice_leVal (bs : List UInt8) (i : ℕ) :
    slice 8 (leVal bs) i =
      ((bs.getD (i / 8) 0).toNat >>> (i % 8) ||| (bs.getD (i / 8 + 1) 0).toNat <<< (8 - i % 8)) % 256 := by
  have hi : 2 ^ i = 256 ^ (i / 8) * 2 ^ (i % 8) := by
    rw [show (256 : ℕ) = 2 ^ 8 by norm_num, ← Nat.pow_mul, ← Nat.pow_add, Nat.div_add_mod]
  rw [slice, hi, ← Nat.div_div_eq_div_mul, leVal_div, leVal_drop, leVal_drop bs (i / 8 + 1)]
  generalize hr : i % 8 = r
  generalize hx : (bs.getD (i / 8) 0).toNat = x
  have hxlt : x < 256 := hx ▸ UInt8.toNat_lt _
  have h256 : 256 = 2 ^ r * 2 ^ (8 - r) := by
    rw [← Nat.pow_add, show r + (8 - r) = 8 by omega]
  have hlow : x / 2 ^ r < 2 ^ (8 - r) := Nat.div_lt_of_lt_mul (h256 ▸ hxlt)
  have hmul : ∀ y, 256 * y = 2 ^ r * (2 ^ (8 - r) * y) := fun y => by rw [← Nat.mul_assoc, ← h256]
  rw [hmul, Nat.add_mul_div_left _ _ (Nat.two_pow_pos r), Nat.shiftRight_eq_div_pow, Nat.shiftLeft_eq, Nat.mul_comm _ (2 ^ (8 - r)),
    Nat.or_comm, ← Nat.two_pow_add_eq_or_of_lt hlow, Nat.mul_add, Nat.mul_left_comm, ← Nat.add_assoc, Nat.add_comm (x / 2 ^ r)]
  exact Nat.add_mul_mod_self_left _ _ _

end BitFields
