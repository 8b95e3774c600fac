import Mathlib.Data.Nat.Digits.Lemmas

/-! Little-endian numbers and the fixed-width fields packed into them, least significant bit first.
    `leVal` reads a byte string as a number, `leBytes` writes one, and `chunk` reads the `p`-th
    `w`-bit field of a packed number. A field depends only on the bytes that hold it. -/

namespace LittleEndian

/-! ### Bytes -/

/-- The number whose little-endian bytes are `bs`. -/
def leVal (bs : List UInt8) : ℕ := Nat.ofDigits 256 (bs.map UInt8.toNat)

def leBytes (w n : ℕ) : List UInt8 := (List.range w).map fun i => UInt8.ofNat (n / 256 ^ i)

@[simp] theorem leVal_nil : leVal [] = 0 := rfl

@[simp] theorem leVal_cons (b : UInt8) (bs : List UInt8) : leVal (b :: bs) = b.toNat + 256 * leVal bs := by
  simp [leVal, Nat.ofDigits_cons]

theorem leVal_append (xs ys : List UInt8) : leVal (xs ++ ys) = leVal xs + 256 ^ xs.length * leVal ys := by
  simp [leVal, Nat.ofDigits_append]

theorem toNat_digits_lt (bs : List UInt8) : ∀ x ∈ bs.map UInt8.toNat, x < 256 := by
  intro x hx
  obtain ⟨b, -, rfl⟩ := List.mem_map.mp hx
  exact b.toNat_lt

theorem leVal_lt (bs : List UInt8) : leVal bs < 256 ^ bs.length := by
  have h := Nat.ofDigits_lt_base_pow_length (by decide) (toNat_digits_lt bs)
  simpa [leVal] using h

theorem leVal_inj {bs cs : List UInt8} (hlen : bs.length = cs.length) (h : leVal bs = leVal cs) : bs = cs := by
  have hmap := Nat.ofDigits_inj_of_len_eq (by decide) (by simpa using hlen) (toNat_digits_lt bs) (toNat_digits_lt cs) h
  exact (List.map_inj_right fun _ _ => UInt8.toNat_inj.mp).mp hmap

@[simp] theorem length_leBytes (w n : ℕ) : (leBytes w n).length = w := by simp [leBytes]

theorem leVal_leBytes (w n : ℕ) : leVal (leBytes w n) = n % 256 ^ w := by
  induction w with
  | zero => simp [leBytes, Nat.mod_one]
  | succ w ih =>
    have hsplit : leBytes (w + 1) n = leBytes w n ++ [UInt8.ofNat (n / 256 ^ w)] := by
      simp [leBytes, List.range_succ]
    have hlast : (UInt8.ofNat (n / 256 ^ w)).toNat = n / 256 ^ w % 256 := UInt8.toNat_ofNat'
    rw [hsplit, leVal_append, ih, length_leBytes, leVal_cons, leVal_nil, hlast, Nat.mul_zero, Nat.add_zero,
      Nat.mod_pow_succ]

theorem leVal_leBytes_of_lt {w n : ℕ} (h : n < 256 ^ w) : leVal (leBytes w n) = n := by
  rw [leVal_leBytes, Nat.mod_eq_of_lt h]

theorem leBytes_leVal (bs : List UInt8) : leBytes bs.length (leVal bs) = bs :=
  leVal_inj (length_leBytes _ _) (leVal_leBytes_of_lt (leVal_lt bs))

/-! ### Bits -/

/-- Bit `i` of the bytes, counted from the lowest bit of the first one. -/
def bit (bs : List UInt8) (i : ℕ) : ℕ := (bs.getD (i / 8) 0).toNat / 2 ^ (i % 8) % 2

/-! ### Fields of a packed number -/

/-- The `p`-th field of `w` bits of `v`. -/
def chunk (w v p : ℕ) : ℕ := v / 2 ^ (w * p) % 2 ^ w

theorem chunk_lt (w v p : ℕ) : chunk w v p < 2 ^ w := Nat.mod_lt _ (Nat.two_pow_pos w)

/-- What lies at bit `m` and above does not reach a field that ends at or below it. -/
theorem chunk_add_of_le {w p m : ℕ} (h : w * (p + 1) ≤ m) (v k : ℕ) : chunk w (v + 2 ^ m * k) p = chunk w v p := by
  have hpow : 2 ^ m = 2 ^ (w * p) * (2 ^ w * 2 ^ (m - w * (p + 1))) := by
    rw [← Nat.pow_add, ← Nat.pow_add]
    congr 1
    rw [Nat.mul_add, Nat.mul_one] at h ⊢
    omega
  have hmul : 2 ^ m * k = 2 ^ (w * p) * (2 ^ w * (2 ^ (m - w * (p + 1)) * k)) := by
    rw [hpow, Nat.mul_assoc, Nat.mul_assoc]
  rw [chunk, hmul, Nat.add_mul_div_left _ _ (Nat.two_pow_pos _), Nat.add_mul_mod_self_left, chunk]

/-- A field that ends within `xs` does not depend on the bytes that follow. -/
theorem chunk_leVal_append {w p : ℕ} {xs : List UInt8} (h : w * (p + 1) ≤ 8 * xs.length) (ys : List UInt8) :
    chunk w (leVal (xs ++ ys)) p = chunk w (leVal xs) p := by
  have hpow : (256 : ℕ) = 2 ^ 8 := by norm_num
  rw [leVal_append, hpow, ← Nat.pow_mul, chunk_add_of_le h]

theorem leVal_div (bs : List UInt8) (k : ℕ) : leVal bs / 256 ^ k = leVal (bs.drop k) := by
  rw [leVal, leVal, List.map_drop, Nat.ofDigits_div_pow_eq_ofDigits_drop k (by decide) _ (toNat_digits_lt bs)]

theorem leVal_bit (bs : List UInt8) (i : ℕ) : leVal bs / 2 ^ i % 2 = bit bs i := by
  have hpow : 2 ^ i = 256 ^ (i / 8) * 2 ^ (i % 8) := by
    rw [show (256 : ℕ) = 2 ^ 8 by norm_num, ← Nat.pow_mul, ← Nat.pow_add, Nat.div_add_mod]
  rw [hpow, ← Nat.div_div_eq_div_mul, leVal_div, bit]
  by_cases hi : i / 8 < bs.length
  · -- The bytes behind do not reach the bit.
    have hlow := chunk_add_of_le (w := 1) (p := i % 8) (m := 8) (by omega) (bs.get ⟨i / 8, hi⟩).toNat
      (leVal (bs.drop (i / 8 + 1)))
    simp only [chunk, Nat.one_mul, Nat.pow_one] at hlow
    have hbyte : bs.getD (i / 8) 0 = bs.get ⟨i / 8, hi⟩ := by simp [List.getD_eq_getElem?_getD, hi]
    rw [List.drop_eq_getElem_cons hi, leVal_cons, hbyte]
    exact hlow
  · have hnone : bs[i / 8]? = none := List.getElem?_eq_none (by omega)
    simp [List.drop_of_length_le (Nat.le_of_not_lt hi), List.getD_eq_getElem?_getD, hnone]

theorem mod_two_pow_eq_bits (v n : ℕ) : v % 2 ^ n = Nat.ofDigits 2 ((List.range n).map fun j => v / 2 ^ j % 2) := by
  induction n with
  | zero => simp [Nat.mod_one]
  | succ n ih => rw [List.range_succ, List.map_append, Nat.ofDigits_append, ← ih, Nat.mod_pow_succ]; simp

/-- A field is made of its bits. -/
theorem chunk_eq_bits (w p : ℕ) (bs : List UInt8) :
    chunk w (leVal bs) p = Nat.ofDigits 2 ((List.range w).map fun j => bit bs (w * p + j)) := by
  rw [chunk, mod_two_pow_eq_bits]
  simp only [Nat.div_div_eq_div_mul, ← Nat.pow_add, leVal_bit]

/-- Masking out a field leaves it in its place. -/
theorem and_mask (w x p : ℕ) : x &&& (2 ^ w - 1) <<< (w * p) = chunk w x p * 2 ^ (w * p) := by
  rw [chunk, ← Nat.and_two_pow_sub_one_eq_mod, ← Nat.shiftRight_eq_div_pow, ← Nat.shiftLeft_eq,
    Nat.shiftLeft_and_distrib]
  apply Nat.eq_of_testBit_eq
  intro i
  simp only [Nat.testBit_and, Nat.testBit_shiftLeft, Nat.testBit_shiftRight]
  by_cases h : w * p ≤ i
  · simp [h]
  · simp [h]

/-- The number that packs the fields `vs` of `w` bits, the first one in the lowest bits. -/
def packed (w : ℕ) (vs : List ℕ) : ℕ := Nat.ofDigits (2 ^ w) vs

theorem packed_lt {w : ℕ} {vs : List ℕ} (hw : 0 < w) (h : ∀ v ∈ vs, v < 2 ^ w) : packed w vs < 2 ^ (w * vs.length) := by
  rw [Nat.pow_mul]
  exact Nat.ofDigits_lt_base_pow_length (Nat.one_lt_two_pow hw.ne') h

theorem packed_or {w : ℕ} {vs : List ℕ} (hw : 0 < w) (h : ∀ v ∈ vs, v < 2 ^ w) (v : ℕ) :
    packed w vs ||| v * 2 ^ (w * vs.length) = packed w (vs ++ [v]) := by
  have hlt := packed_lt hw h
  rw [Nat.or_comm, Nat.mul_comm v, ← Nat.two_pow_add_eq_or_of_lt hlt, packed, packed, Nat.ofDigits_append,
    Nat.ofDigits_singleton, ← Nat.pow_mul, Nat.add_comm]

theorem packed_inj {w : ℕ} {us vs : List ℕ} (hw : 0 < w) (hlen : us.length = vs.length) (hu : ∀ v ∈ us, v < 2 ^ w)
    (hv : ∀ v ∈ vs, v < 2 ^ w) (h : packed w us = packed w vs) : us = vs :=
  Nat.ofDigits_inj_of_len_eq (Nat.one_lt_two_pow hw.ne') hlen hu hv h

theorem chunk_packed {w : ℕ} {vs : List ℕ} (h : ∀ v ∈ vs, v < 2 ^ w) {p : ℕ} {v : ℕ} (hp : vs[p]? = some v) :
    chunk w (packed w vs) p = v := by
  obtain ⟨hlt, hv⟩ := List.getElem?_eq_some_iff.mp hp
  have hvlt : v < 2 ^ w := h v (List.mem_of_getElem? hp)
  rw [chunk, packed, Nat.pow_mul, Nat.ofDigits_div_pow_eq_ofDigits_drop p (Nat.two_pow_pos w) vs h,
    List.drop_eq_getElem_cons hlt, hv, Nat.ofDigits_cons, Nat.add_mul_mod_self_left, Nat.mod_eq_of_lt hvlt]

end LittleEndian
