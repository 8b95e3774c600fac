import AtherosCsi.Persistence

/-! The text for `PQconnectdb`. Its buffer has no slack: `num_digits` counts what `%d` prints, for every `int`,
    and the constant 40 is the fixed part of the text with its NUL. -/

namespace AtherosCsi
open Loop Sql

/-! ### Digits -/

theorem digitStep_of_pos {s : Int64 × Int32} (h : 0 < s.1.toInt) : digitStep s = some (s.1 / 10, s.2 + 1) :=
  if_pos (number_pos_iff.mpr h)

theorem digitStep_of_not_pos {s : Int64 × Int32} (h : ¬ 0 < s.1.toInt) : digitStep s = none :=
  if_neg fun hpos => h (number_pos_iff.mp hpos)

/-- The loop counts one digit a round, from the last one on. -/
theorem iterate_digitStep (n : ℕ) (hn : 0 < n) (s : Int64 × Int32) (hs : s.1.toInt = n) :
    (iterate digitStep (fun s => s.1.toInt.toNat) digitStep_decreases s).2 =
      s.2 + Int32.ofNat (Nat.toDigits 10 n).length := by
  induction n using Nat.strong_induction_on generalizing s with
  | _ n ih =>
    have hpos : 0 < s.1.toInt := by omega
    have hnext : (s.1 / 10).toInt = (n / 10 : ℕ) := by
      rw [toInt_div_ten hpos, hs, Int.natCast_ediv]
      rfl
    rw [iterate_of_some (digitStep_of_pos hpos)]
    by_cases hsmall : n < 10
    · have hzero : ¬ 0 < (s.1 / 10).toInt := by omega
      rw [iterate_of_none (digitStep_of_not_pos (s := (s.1 / 10, s.2 + 1)) hzero), Nat.toDigits_of_lt_base hsmall]
      rfl
    · have hdigits := Nat.toDigits_of_base_le (b := 10) (by decide) (Nat.le_of_not_lt hsmall)
      rw [ih (n / 10) (by omega) (by omega) (s.1 / 10, s.2 + 1) hnext, hdigits, List.length_append, List.length_singleton, Nat.add_comm,
        Int32.ofNat_add, Int32.add_assoc]
      rfl

/-- The sign takes a digit of its own, and makes way for the number without it. -/
theorem longNumDigits_eq {number : Int64} (h : -2 ^ 63 < number.toInt) :
    longNumDigits number = Int32.ofNat (decimal number.toInt).length := by
  have hlt := number.toInt_lt
  unfold longNumDigits
  by_cases hneg : number < 0
  · have hval : number.toInt < 0 := Int64.lt_iff_toInt_lt.mp hneg
    have hminus : (number * -1).toInt = number.toInt.natAbs := by
      rw [Int64.toInt_mul, show (-1 : Int64).toInt = -1 from rfl, Int.bmod_eq_of_le (by omega) (by omega)]
      omega
    have hne : number * -1 ≠ 0 := by
      intro hzero
      rw [hzero] at hminus
      have : (0 : Int64).toInt = 0 := rfl
      omega
    simp only [if_pos hneg, if_neg hne]
    rw [iterate_digitStep number.toInt.natAbs (by omega) (number * -1, 1) hminus, decimal, if_pos hval, List.length_cons,
      Nat.add_comm, Int32.ofNat_add]
    rfl
  · have hval : ¬ number.toInt < 0 := fun hlt => hneg (Int64.lt_iff_toInt_lt.mpr hlt)
    simp only [if_neg hneg]
    by_cases hzero : number = 0
    · rw [if_pos hzero, hzero]
      rfl
    · have hne : number.toInt ≠ 0 := fun h0 => hzero (Int64.toInt_inj.mp h0)
      rw [if_neg hzero, iterate_digitStep number.toInt.natAbs (by omega) (number, 0) (by simp only; omega), decimal,
        if_neg hval, Int32.zero_add]

/-- `num_digits` counts the characters that `%d` prints. -/
theorem numDigits_eq (number : Int32) : (numDigits number).toInt = (decimal number.toInt).length := by
  have hle := number.le_toInt
  have hlt := number.toInt_lt
  have hlen : (decimal number.toInt).length ≤ 11 := length_decimal_signed (k := 10) (by decide) (by omega)
  rw [numDigits, longNumDigits_eq (by rw [Int32.toInt_toInt64]; omega), Int32.toInt_toInt64,
    Int32.toInt_ofNat_of_lt (by omega)]

/-! ### The buffer -/

theorem toInt_toInt32_of_lt {x : UInt64} (h : x.toNat < 2 ^ 31) : x.toUInt32.toInt32.toInt = x.toNat := by
  have hval : x.toUInt32.toBitVec.toNat = x.toNat := by
    rw [UInt32.toNat_toBitVec, UInt64.toNat_toUInt32, Nat.mod_eq_of_lt (by omega)]
  rw [← Int32.toInt_toBitVec, UInt32.toBitVec_toInt32, BitVec.toInt_eq_toNat_of_lt (by omega), hval]

theorem toNat_numDigits (number : Int32) :
    (numDigits number).toInt64.toUInt64.toNat = (decimal number.toInt).length := by
  have hval : (numDigits number).toInt64.toInt = (decimal number.toInt).length := by
    rw [Int32.toInt_toInt64, numDigits_eq]
  have hnonneg : 0 ≤ (numDigits number).toInt64 := Int64.le_iff_toInt_le.mpr (by rw [hval]; exact Int.natCast_nonneg _)
  rw [Int64.toNat_toUInt64_of_le hnonneg, ← Int64.toNat_toInt, hval, Int.toNat_natCast]

/-- The length of the four names together, without any bound on each. -/
def PgParams.namesLen (p : PgParams) : ℕ :=
  (cString p.user).length + (cString p.pass).length + (cString p.dbname).length + (cString p.host).length

theorem PgParams.strLen_eq (p : PgParams) (hlen : p.namesLen < 2 ^ 31 - 64) :
    p.strLen.toInt = 40 + (decimal p.port.toInt).length + p.namesLen := by
  have hport := p.port.le_toInt
  have hport' := p.port.toInt_lt
  have hdigits : (decimal p.port.toInt).length ≤ 11 := length_decimal_signed (k := 10) (by decide) (by omega)
  unfold namesLen at hlen ⊢
  have hsum : (40 + (numDigits p.port).toInt64.toUInt64 + strlen p.user + strlen p.pass + strlen p.dbname +
      strlen p.host).toNat = 40 + (decimal p.port.toInt).length + ((cString p.user).length + (cString p.pass).length +
      (cString p.dbname).length + (cString p.host).length) := by
    simp only [UInt64.toNat_add, toNat_numDigits, strlen, UInt64.toNat_ofNat', UInt64.reduceToNat]
    omega
  rw [strLen, toInt_toInt32_of_lt (by omega), hsum]
  omega

theorem PgParams.length_connectionString (p : PgParams) :
    p.connectionString.length = 39 + (decimal p.port.toInt).length + p.namesLen := by
  have hfixed : "user=".toList.length = 5 ∧ " password=".toList.length = 10 ∧ " dbname=".toList.length = 8 ∧
      " hostaddr=".toList.length = 10 ∧ " port=".toList.length = 6 := by decide
  unfold connectionString namesLen
  simp only [List.length_append, hfixed]
  omega

theorem PgParams.length_eq_strLen (p : PgParams) (hlen : p.namesLen < 2 ^ 31 - 64) :
    p.connectionString.length + 1 = p.strLen.toInt := by
  rw [p.strLen_eq hlen, p.length_connectionString]
  omega

theorem pgConnect_eq (connectdb : List Char → Bool) (p : PgParams) (hlen : p.namesLen < 2 ^ 31 - 64) :
    pgConnect connectdb p = some (if connectdb p.connectionString then (1, true) else (0, false)) := by
  have hfull := p.length_eq_strLen hlen
  rw [pgConnect, written, if_pos (by omega)]
  rfl

/-- The connection string fills its buffer to the last byte, so `pg_connect` never writes behind it, and hands all
    of it to `PQconnectdb`. -/
theorem pgConnect_fits (p : PgParams) (hlen : p.namesLen < 2 ^ 31 - 64) :
    (numDigits p.port).toInt = (decimal p.port.toInt).length ∧ p.connectionString.length + 1 = p.strLen.toInt ∧
    ∀ connectdb : List Char → Bool,
      pgConnect connectdb p = some (if connectdb p.connectionString then (1, true) else (0, false)) :=
  ⟨numDigits_eq p.port, p.length_eq_strLen hlen, fun connectdb => pgConnect_eq connectdb p hlen⟩

theorem pgConnect_fits_pgParams : pgParams.namesLen < 2 ^ 31 - 64 ∧
    (numDigits pgParams.port).toInt = 4 ∧ pgParams.strLen.toInt = 62 ∧
    pgConnect (fun text => text = "user=csi password=csi dbname=csi hostaddr=127.0.0.1 port=5432".toList) pgParams = some (1, true) := by
  obtain ⟨hdigits, hfull, hconnect⟩ := pgConnect_fits pgParams (by decide)
  have hlen : pgParams.connectionString.length = 61 := by decide
  have htext : pgParams.connectionString = "user=csi password=csi dbname=csi hostaddr=127.0.0.1 port=5432".toList := by decide
  refine ⟨by decide, hdigits.trans (by decide), by omega, ?_⟩
  rw [hconnect, if_pos (decide_eq_true htext)]

end AtherosCsi
