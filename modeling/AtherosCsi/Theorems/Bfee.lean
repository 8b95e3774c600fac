import Mathlib.Data.List.GetD
import AtherosCsi.ReadBfee
import AtherosCsi.Theorems.Unpack

/-! `read_bfee` reads every report back, and takes nothing else for one: what it returns is what the bits at
    the front of its array carry. It stays inside its array unless the array ends before the length that it
    announces. -/

namespace AtherosCsi
open LittleEndian BitFields Loop MatArray
open Reservoir (getElem?_eq_some_getD)

/-! ### Numbers made of bytes -/

theorem toNat_ushort (a b : UInt8) : (a.toUInt16 + (b.toUInt16 <<< 8)).toNat = leVal [a, b] := by
  have ha := a.toNat_lt
  have hb := b.toNat_lt
  simp only [UInt16.toNat_add, UInt16.toNat_shiftLeft, UInt8.toNat_toUInt16, UInt16.reduceToNat, Nat.shiftLeft_eq, Nat.reduceMod, Nat.reducePow,
    leVal_cons, leVal_nil]
  omega

theorem toNat_two (a b : UInt8) : (a.toUInt32 + (b.toUInt32 <<< 8)).toNat = leVal [a, b] := by
  have ha := a.toNat_lt
  have hb := b.toNat_lt
  simp only [UInt32.toNat_add, UInt32.toNat_shiftLeft, UInt8.toNat_toUInt32, UInt32.reduceToNat, Nat.shiftLeft_eq, Nat.reduceMod, Nat.reducePow,
    leVal_cons, leVal_nil]
  omega

theorem toNat_four (a b c d : UInt8) :
    (a.toUInt32 + (b.toUInt32 <<< 8) + (c.toUInt32 <<< 16) + (d.toUInt32 <<< 24)).toNat = leVal [a, b, c, d] := by
  have ha := a.toNat_lt
  have hb := b.toNat_lt
  have hc := c.toNat_lt
  have hd := d.toNat_lt
  simp only [UInt32.toNat_add, UInt32.toNat_shiftLeft, UInt8.toNat_toUInt32, UInt32.reduceToNat, Nat.shiftLeft_eq, Nat.reduceMod, Nat.reducePow,
    leVal_cons, leVal_nil]
  omega

theorem antennas_le (nrx ntx : UInt8) : nrx.toNat * ntx.toNat ≤ 65025 :=
  Nat.mul_le_mul (Nat.le_of_lt_succ nrx.toNat_lt) (Nat.le_of_lt_succ ntx.toNat_lt)

theorem toNat_calcLen (nrx ntx : UInt8) : (calcLen nrx ntx).toNat = 60 * (nrx.toNat * ntx.toNat) + 12 := by
  have hn := antennas_le nrx ntx
  have hprod : (nrx.toUInt32 * ntx.toUInt32).toNat = nrx.toNat * ntx.toNat := by
    rw [UInt32.toNat_mul, UInt8.toNat_toUInt32, UInt8.toNat_toUInt32]
    omega
  generalize nrx.toNat * ntx.toNat = n at hn hprod
  simp only [calcLen, UInt32.toNat_div, UInt32.toNat_add, UInt32.toNat_mul, UInt32.reduceToNat, hprod]
  omega

/-! ### The loops -/

/-- The bits of `v` from bit `i` on, as a `char`. -/
def charAt (v i : ℕ) : Int8 := (UInt8.ofNat (slice 8 v i)).toInt8

theorem joined_eq (bs : List UInt8) (i : ℕ) : joined (bs.getD (i / 8) 0) (bs.getD (i / 8 + 1) 0) (i % 8) = charAt (leVal bs) i := by
  rw [charAt, slice_leVal, joined]
  exact congrArg UInt8.toInt8 (UInt8.ofNat_mod_size).symm

/-- The bit where entry `e` begins, with `n` entries to a subcarrier. -/
def entryOffset (n e : ℕ) : ℕ := 3 * (e / n + 1) + 16 * e

theorem entryOffset_eq {n i j : ℕ} (hj : j < n) : entryOffset n (i * n + j) = i * (3 + 16 * n) + 3 + 16 * j := by
  have hdiv : (i * n + j) / n = i := by
    rw [Nat.mul_comm, Nat.mul_add_div (Nat.zero_lt_of_lt hj), Nat.div_eq_of_lt hj, Nat.add_zero]
  rw [entryOffset, hdiv]
  ring

/-- The arrays hold the first `e` entries. -/
structure Stored (v n N e : ℕ) (out : MexState) : Prop where
  ptrR : out.ptrR = e
  ptrI : out.ptrI = e
  lengthR : out.pr.length = N
  lengthI : out.pi.length = N
  real : ∀ k < e, out.pr[k]? = some (charAt v (entryOffset n k)).toInt
  imag : ∀ k < e, out.pi[k]? = some (charAt v (entryOffset n k + 8)).toInt

theorem getElem?_set_prefix {l : List ℤ} {f : ℕ → ℤ} {e : ℕ} (he : e < l.length) (hl : ∀ k < e, l[k]? = some (f k)) :
    ∀ k < e + 1, (l.set e (f e))[k]? = some (f k) := by
  intro k hk
  rcases Nat.lt_or_eq_of_le (Nat.le_of_lt_succ hk) with hlt | rfl
  · rw [List.getElem?_set_ne (Nat.ne_of_gt hlt)]
    exact hl k hlt
  · simp [he]

section Read
variable {payload : ℕ → Option UInt8} {bs : List UInt8} {n N : ℕ}

theorem readEntry_stored {e : ℕ} {s : BfeeState} (h : Stored (leVal bs) n N e s.out) (he : e < N)
    (hindex : s.index = entryOffset n e) (hpayload : ∀ i ≤ s.index / 8 + 2, payload i = some (bs.getD i 0)) :
    ∃ t, readEntry payload (s.index % 8) s = some t ∧ t.index = s.index + 16 ∧ Stored (leVal bs) n N (e + 1) t.out := by
  have hreal : joined (bs.getD (s.index / 8) 0) (bs.getD (s.index / 8 + 1) 0) (s.index % 8) = charAt (leVal bs) (entryOffset n e) := by
    rw [joined_eq, hindex]
  have himag : joined (bs.getD (s.index / 8 + 1) 0) (bs.getD (s.index / 8 + 2) 0) (s.index % 8) =
      charAt (leVal bs) (entryOffset n e + 8) := by
    have hnext := joined_eq bs (s.index + 8)
    rwa [Nat.add_div_right _ (by decide), Nat.add_mod_right, show s.index + 8 = entryOffset n e + 8 by rw [hindex]] at hnext
  have hR : s.out.ptrR < s.out.pr.length := by rw [h.ptrR, h.lengthR]; exact he
  have hI : s.out.ptrI < s.out.pi.length := by rw [h.ptrI, h.lengthI]; exact he
  simp only [readEntry, hpayload _ (Nat.le_refl _), hpayload (s.index / 8) (by omega), hpayload (s.index / 8 + 1) (by omega),
    Option.bind_eq_bind, Option.bind_some, hreal, himag, MexState.putReal, hR, if_true, MexState.putImag, hI]
  refine ⟨_, rfl, rfl, ?_, ?_, ?_, ?_, ?_, ?_⟩
  · simp [h.ptrR]
  · simp [h.ptrI]
  · simp [h.lengthR]
  · simp [h.lengthI]
  · simp only [h.ptrR, Int8.toInt_toInt32]
    exact getElem?_set_prefix (f := fun k => (charAt (leVal bs) (entryOffset n k)).toInt) (h.lengthR ▸ he) h.real
  · simp only [h.ptrI, Int8.toInt_toInt32]
    exact getElem?_set_prefix (f := fun k => (charAt (leVal bs) (entryOffset n k + 8)).toInt) (h.lengthI ▸ he) h.imag

theorem readTone_stored {i : ℕ} {s : BfeeState} (h : Stored (leVal bs) n N (i * n) s.out) (hi : i < 30) (hn : n < 2 ^ 32)
    (hN : (i + 1) * n ≤ N) (hindex : s.index = i * (3 + 16 * n))
    (hpayload : 0 < n → ∀ k < 60 * n + 12, payload k = some (bs.getD k 0)) :
    ∃ t, readTone payload n s = some t ∧ t.index = (i + 1) * (3 + 16 * n) ∧ Stored (leVal bs) n N ((i + 1) * n) t.out := by
  have hlast : (i + 1) * (3 + 16 * n) ≤ 30 * (3 + 16 * n) := Nat.mul_le_mul_right _ hi
  have hnext : (i + 1) * (3 + 16 * n) = i * (3 + 16 * n) + 3 + 16 * n := by ring
  have hend : (i + 1) * n = i * n + n := Nat.succ_mul _ _
  -- The entries are two bytes apart, so that all of them begin at the same bit of a byte.
  obtain ⟨t, ht, hti, hts⟩ := forUp_rule (w := 32) (f := fun _ => readEntry payload ((s.index + 3) % 8))
    (fun j t => t.index = s.index + 3 + 16 * j ∧ Stored (leVal bs) n N (i * n + j) t.out) hn (Nat.zero_le n)
    (s := { s with index := s.index + 3 }) ⟨rfl, h⟩ fun j u _ hj hu => by
      obtain ⟨huindex, hu⟩ := hu
      have hbit : u.index % 8 = (s.index + 3) % 8 := by omega
      obtain ⟨v, hv, hvindex, hv'⟩ := readEntry_stored hu (by omega)
        (by rw [huindex, hindex, entryOffset_eq hj]) fun k hk => hpayload (by omega) k (by omega)
      exact ⟨v, hbit ▸ hv, by rw [hvindex, huindex, Nat.mul_succ, Nat.add_assoc], hv'⟩
  exact ⟨t, ht, by rw [hti, hindex, hnext], hend ▸ hts⟩

theorem readTones_stored (hn : n < 2 ^ 32) (hpayload : 0 < n → ∀ k < 60 * n + 12, payload k = some (bs.getD k 0)) :
    ∃ s, forUp 32 0 30 (fun _ => readTone payload n) ⟨0, List.replicate (n * 30) 0, List.replicate (n * 30) 0, 0, 0⟩ = some s ∧
      Stored (leVal bs) n (n * 30) (n * 30) s.out := by
  have hstart : Stored (leVal bs) n (n * 30) (0 * n) ⟨List.replicate (n * 30) 0, List.replicate (n * 30) 0, 0, 0⟩ :=
    ⟨(Nat.zero_mul n).symm, (Nat.zero_mul n).symm, List.length_replicate, List.length_replicate,
      fun k hk => absurd (Nat.zero_mul n ▸ hk) (Nat.not_lt_zero k), fun k hk => absurd (Nat.zero_mul n ▸ hk) (Nat.not_lt_zero k)⟩
  obtain ⟨s, hs, -, hstored⟩ := forUp_rule (w := 32) (f := fun _ => readTone payload n)
    (fun i s => s.index = i * (3 + 16 * n) ∧ Stored (leVal bs) n (n * 30) (i * n) s.out) (by decide : 30 < 2 ^ 32) (Nat.zero_le 30)
    (s := ⟨0, List.replicate (n * 30) 0, List.replicate (n * 30) 0, 0, 0⟩) ⟨(Nat.zero_mul _).symm, hstart⟩ fun i s _ hi hs => by
      have hroom : (i + 1) * n ≤ n * 30 := by
        rw [Nat.mul_comm n]
        exact Nat.mul_le_mul_right n hi
      obtain ⟨t, ht, hindex, hstored⟩ := readTone_stored hs.2 hi hn hroom hs.1 hpayload
      exact ⟨t, ht, hindex, hstored⟩
  exact ⟨s, hs, by rwa [Nat.mul_comm 30] at hstored⟩

/-- Reports with an entry are read up to their last byte. -/
theorem readTones_reads {s t : BfeeState} (hn : n < 2 ^ 32) (hpos : 0 < n) (hindex : s.index = 0)
    (h : forUp 32 0 30 (fun _ => readTone payload n) s = some t) : ∃ b, payload (60 * n + 11) = some b := by
  have hentry : ∀ {r : ℕ} {u u' : BfeeState}, readEntry payload r u = some u' →
      u'.index = u.index + 16 ∧ ∃ b, payload (u'.index / 8) = some b := by
    intro r u u' hu
    simp only [readEntry, Option.bind_eq_bind, Option.bind_eq_some_iff] at hu
    obtain ⟨_, -, _, -, _, -, _, -, b, hb, _, -, hu'⟩ := hu
    cases hu'
    exact ⟨rfl, b, by rwa [show (u.index + 16) / 8 = u.index / 8 + 2 by omega]⟩
  have htone : ∀ {u u' : BfeeState}, readTone payload n u = some u' →
      u'.index = u.index + 3 + 16 * n ∧ ∃ b, payload (u'.index / 8) = some b := by
    intro u u' hu
    obtain ⟨hend, hread⟩ := forUp_inv (fun j v => v.index = u.index + 3 + 16 * j ∧ (0 < j → ∃ b, payload (v.index / 8) = some b)) hn
      ⟨rfl, fun h => absurd h (Nat.lt_irrefl 0)⟩ (fun j v v' _ hv hstep => by
        obtain ⟨hnext, hread⟩ := hentry hstep
        exact ⟨by rw [hnext, hv.1, Nat.mul_succ, Nat.add_assoc], fun _ => hread⟩) hu
    exact ⟨hend, hread hpos⟩
  obtain ⟨hend, hread⟩ := forUp_inv (fun i v => v.index = i * (3 + 16 * n) ∧ (0 < i → ∃ b, payload (v.index / 8) = some b))
    (by decide : 30 < 2 ^ 32) ⟨by rw [hindex, Nat.zero_mul], fun h => absurd h (Nat.lt_irrefl 0)⟩ (fun i v v' _ hv hstep => by
      obtain ⟨hnext, hread⟩ := htone hstep
      exact ⟨by rw [hnext, hv.1, Nat.add_assoc, ← Nat.succ_mul], fun _ => hread⟩) h
  have hlast : t.index / 8 = 60 * n + 11 := by omega
  exact hlast ▸ hread (by decide)

end Read

/-! ### The function -/

/-- The pairs of antennas, and the length that the report announces. -/
def pairsAt (b : ℕ → UInt8) : ℕ := (b 8).toNat * (b 9).toNat

def lenAt (b : ℕ → UInt8) : ℕ := leVal [b 16, b 17]

def bfeeAt (b : ℕ → UInt8) (csi : Array3 (ℤ × ℤ)) : Bfee where
  timestampLow := (b 0).toUInt32 + ((b 1).toUInt32 <<< 8) + ((b 2).toUInt32 <<< 16) + ((b 3).toUInt32 <<< 24)
  bfeeCount := (b 4).toUInt16 + ((b 5).toUInt16 <<< 8)
  nrx := b 8
  ntx := b 9
  rssiA := b 10
  rssiB := b 11
  rssiC := b 12
  noise := (b 13).toInt8
  agc := b 14
  perm := permOf (b 15)
  rate := (b 18).toUInt16 + ((b 19).toUInt16 <<< 8)
  csi := csi

/-- The entries that the bits of `v` form. -/
def csiOf (v : ℕ) (nrx ntx : UInt8) : Array3 (ℤ × ℤ) :=
  ⟨ntx.toNat, nrx.toNat, 30, fun t r i =>
    let o := i * (3 + 16 * (nrx.toNat * ntx.toNat)) + 3 + 16 * (r * ntx.toNat + t)
    ((charAt v o).toInt, (charAt v (o + 8)).toInt)⟩

theorem Stored.csi {v : ℕ} {nrx ntx : UInt8} {out : MexState}
    (h : Stored v (nrx.toNat * ntx.toNat) (nrx.toNat * ntx.toNat * 30) (nrx.toNat * ntx.toNat * 30) out) :
    MxArray.toArray3 ⟨ntx.toNat, nrx.toNat, 30, out.pr, out.pi⟩ = csiOf v nrx ntx := by
  unfold MxArray.toArray3 csiOf
  congr 1
  funext t r i
  have hpair : (r : ℕ) * ntx.toNat + t < nrx.toNat * ntx.toNat := by
    calc (r : ℕ) * ntx.toNat + t < (r + 1) * ntx.toNat := by rw [Nat.succ_mul]; exact Nat.add_lt_add_left t.isLt _
      _ ≤ nrx.toNat * ntx.toNat := Nat.mul_le_mul_right _ r.isLt
  have hindex : MxArray.index ⟨ntx.toNat, nrx.toNat, 30, out.pr, out.pi⟩ t r i =
      i * (nrx.toNat * ntx.toNat) + (r * ntx.toNat + t) := by
    rw [MxArray.index]
    ring
  have hlt : i * (nrx.toNat * ntx.toNat) + (r * ntx.toNat + t) < nrx.toNat * ntx.toNat * 30 := by
    calc i * (nrx.toNat * ntx.toNat) + (r * ntx.toNat + t) < (i + 1) * (nrx.toNat * ntx.toNat) := by
          rw [Nat.succ_mul]; exact Nat.add_lt_add_left hpair _
      _ ≤ 30 * (nrx.toNat * ntx.toNat) := Nat.mul_le_mul_right _ i.isLt
      _ = nrx.toNat * ntx.toNat * 30 := Nat.mul_comm _ _
  rw [hindex, h.real _ hlt, h.imag _ hlt, entryOffset_eq hpair]
  rfl

section Function
variable {inBytes : List UInt8}

theorem readBfee_of_lt (h : inBytes.length < 20) : readBfee inBytes = none := by
  have hnone : inBytes[19]? = none := List.getElem?_eq_none (by omega)
  simp only [readBfee, hnone, Option.bind_eq_bind, Option.bind_none, Option.bind_fun_none]

theorem readBfee_of_le (h : 20 ≤ inBytes.length) (b : ℕ → UInt8) (hb : b = fun i => inBytes.getD i 0) :
    readBfee inBytes =
      if lenAt b ≠ 60 * pairsAt b + 12 then some (.error wrongSize)
      else (forUp 32 0 30 (fun _ => readTone (fun i => inBytes[20 + i]?) (pairsAt b))
          ⟨0, List.replicate (pairsAt b * 30) 0, List.replicate (pairsAt b * 30) 0, 0, 0⟩).map fun s =>
        .ok (bfeeAt b (MxArray.toArray3 ⟨(b 9).toNat, (b 8).toNat, 30, s.out.pr, s.out.pi⟩)) := by
  have hbyte : ∀ i, i < 20 → inBytes[i]? = some (b i) := fun i hi => by
    simp [hb, hi.trans_le h]
  have hlen : (b 16).toUInt32 + ((b 17).toUInt32 <<< 8) ≠ calcLen (b 8) (b 9) ↔ lenAt b ≠ 60 * pairsAt b + 12 := by
    rw [ne_eq, ← UInt32.toNat_inj, toNat_two, toNat_calcLen]
    rfl
  simp (disch := decide) only [readBfee, hbyte, Option.bind_eq_bind, Option.bind_some, hlen, Nat.mul_comm (b 9).toNat]
  split
  · rfl
  · rw [← pairsAt]
    cases forUp 32 0 30 (fun _ => readTone (fun i => inBytes[20 + i]?) (pairsAt b))
      ⟨0, List.replicate (pairsAt b * 30) 0, List.replicate (pairsAt b * 30) 0, 0, 0⟩ <;> rfl

/-- The bytes of the array, with zeros behind its end. -/
def byteAt (inBytes : List UInt8) (i : ℕ) : UInt8 := inBytes.getD i 0

theorem readBfee_eq_error_iff {e : MexError} :
    readBfee inBytes = some (.error e) ↔
      e = wrongSize ∧ 20 ≤ inBytes.length ∧ lenAt (byteAt inBytes) ≠ 60 * pairsAt (byteAt inBytes) + 12 := by
  rcases Nat.lt_or_ge inBytes.length 20 with hshort | hlong
  · rw [readBfee_of_lt hshort]
    exact ⟨fun h => (by cases h), fun ⟨_, hlong, _⟩ => absurd hlong (Nat.not_le_of_lt hshort)⟩
  · rw [readBfee_of_le hlong (byteAt inBytes) rfl]
    split
    · rename_i hlen
      exact ⟨fun h => ⟨(Except.error.inj (Option.some.inj h)).symm, hlong, hlen⟩, fun ⟨he, _, _⟩ => by rw [he]⟩
    · rename_i hlen
      refine ⟨fun h => ?_, fun ⟨_, _, hne⟩ => absurd hne hlen⟩
      obtain ⟨s, -, hs⟩ := Option.map_eq_some_iff.mp h
      cases hs

theorem readBfee_eq_ok_iff {r : Bfee} :
    readBfee inBytes = some (.ok r) ↔
      20 ≤ inBytes.length ∧ lenAt (byteAt inBytes) = 60 * pairsAt (byteAt inBytes) + 12 ∧
      (0 < pairsAt (byteAt inBytes) → 20 + lenAt (byteAt inBytes) ≤ inBytes.length) ∧
      r = bfeeAt (byteAt inBytes) (csiOf (leVal (inBytes.drop 20)) (byteAt inBytes 8) (byteAt inBytes 9)) := by
  have hn : pairsAt (byteAt inBytes) < 2 ^ 32 := (antennas_le _ _).trans_lt (by norm_num)
  rcases Nat.lt_or_ge inBytes.length 20 with hshort | hlong
  · rw [readBfee_of_lt hshort]
    exact ⟨fun h => (by cases h), fun ⟨hlong, _⟩ => absurd hlong (Nat.not_le_of_lt hshort)⟩
  · rw [readBfee_of_le hlong (byteAt inBytes) rfl]
    split
    · rename_i hlen
      exact ⟨fun h => (by cases h), fun ⟨_, heq, _⟩ => absurd heq hlen⟩
    · rename_i hlen
      rw [not_not] at hlen
      -- The loops end if and only if the array has the bytes, and then with the entries that their bits form.
      have hread : 0 < pairsAt (byteAt inBytes) → 20 + lenAt (byteAt inBytes) ≤ inBytes.length →
          ∀ k < 60 * pairsAt (byteAt inBytes) + 12, inBytes[20 + k]? = some ((inBytes.drop 20).getD k 0) := by
        intro _ hle k hk
        rw [← List.getElem?_drop]
        exact getElem?_eq_some_getD (by rw [List.length_drop]; omega)
      have hdone : (0 < pairsAt (byteAt inBytes) → 20 + lenAt (byteAt inBytes) ≤ inBytes.length) →
          ∃ s, forUp 32 0 30 (fun _ => readTone (fun i => inBytes[20 + i]?) (pairsAt (byteAt inBytes)))
              ⟨0, List.replicate (pairsAt (byteAt inBytes) * 30) 0, List.replicate (pairsAt (byteAt inBytes) * 30) 0, 0, 0⟩ = some s ∧
            MxArray.toArray3 ⟨(byteAt inBytes 9).toNat, (byteAt inBytes 8).toNat, 30, s.out.pr, s.out.pi⟩ =
              csiOf (leVal (inBytes.drop 20)) (byteAt inBytes 8) (byteAt inBytes 9) := by
        intro hroom
        obtain ⟨s, hs, hstored⟩ := readTones_stored hn fun hpos => hread hpos (hroom hpos)
        exact ⟨s, hs, hstored.csi⟩
      constructor
      · intro h
        obtain ⟨s, hs, hr⟩ := Option.map_eq_some_iff.mp h
        have hroom : 0 < pairsAt (byteAt inBytes) → 20 + lenAt (byteAt inBytes) ≤ inBytes.length := by
          intro hpos
          obtain ⟨b, hb⟩ := readTones_reads hn hpos rfl hs
          have hlast := (List.getElem?_eq_some_iff.mp hb).1
          omega
        obtain ⟨s', hs', hcsi⟩ := hdone hroom
        cases hs.symm.trans hs'
        exact ⟨hlong, hlen, hroom, by rw [← Except.ok.inj hr, hcsi]⟩
      · rintro ⟨-, -, hroom, rfl⟩
        obtain ⟨s, hs, hcsi⟩ := hdone hroom
        rw [hs, Option.map_some, hcsi]

/-- `read_bfee` reads behind the end of its array when the header is not whole, or when the array ends before
    the length that it announces, where that length is right and there is something to read. -/
theorem readBfee_eq_none_iff (inBytes : List UInt8) :
    readBfee inBytes = none ↔ inBytes.length < 20 ∨ lenAt (byteAt inBytes) = 60 * pairsAt (byteAt inBytes) + 12 ∧
      0 < pairsAt (byteAt inBytes) ∧ inBytes.length < 20 + lenAt (byteAt inBytes) := by
  have herror := @readBfee_eq_error_iff inBytes wrongSize
  rcases hread : readBfee inBytes with _ | e | r
  · have hok := @readBfee_eq_ok_iff inBytes
      (bfeeAt (byteAt inBytes) (csiOf (leVal (inBytes.drop 20)) (byteAt inBytes 8) (byteAt inBytes 9)))
    simp only [hread, reduceCtorEq, false_iff, true_and, and_true] at herror hok
    simp only [true_iff]
    omega
  · obtain ⟨-, hlong, hlen⟩ := readBfee_eq_error_iff.mp hread
    simp only [reduceCtorEq, false_iff]
    omega
  · obtain ⟨hlong, hlen, hroom, -⟩ := readBfee_eq_ok_iff.mp hread
    simp only [reduceCtorEq, false_iff]
    omega

end Function

/-! ### Reports -/

namespace Report
variable (x : Report) (rest : List UInt8)

def pairs : ℕ := x.nrx.toNat * x.ntx.toNat

theorem totalWidth_antennaFields (i r : ℕ) : totalWidth (x.antennaFields i r) = x.ntx.toNat * 16 :=
  totalWidth_flatMap_range (w := 16) (fun _ => rfl) _

theorem totalWidth_toneFields (i : ℕ) : totalWidth (x.toneFields i) = 3 + 16 * x.pairs := by
  rw [toneFields, totalWidth_cons, totalWidth_flatMap_range (x.totalWidth_antennaFields i), pairs]
  ring

theorem totalWidth_fields : totalWidth x.fields = 8 * x.len := by
  rw [fields, totalWidth_append, totalWidth_flatMap_range x.totalWidth_toneFields, totalWidth_cons, totalWidth_nil, len, pairs]
  ring

/-- A number holds the fields of a report when it holds each entry in its place. -/
theorem holds_fields {v : ℕ} : Holds v 0 x.fields ↔
    (∀ i < 30, slice 3 v (i * (3 + 16 * x.pairs)) = x.skipped i ∧ ∀ r < x.nrx.toNat, ∀ t < x.ntx.toNat,
      slice 8 v (i * (3 + 16 * x.pairs) + 3 + 16 * (r * x.ntx.toNat + t)) = (x.real i r t).toUInt8.toNat ∧
      slice 8 v (i * (3 + 16 * x.pairs) + 3 + 16 * (r * x.ntx.toNat + t) + 8) = (x.imag i r t).toUInt8.toNat) ∧
    slice 6 v (30 * (3 + 16 * x.pairs)) = x.spare := by
  have hplace : ∀ o r t, o + r * (x.ntx.toNat * 16) + t * 16 = o + 16 * (r * x.ntx.toNat + t) := fun o r t => by ring
  simp only [fields, holds_append, holds_flatMap_range x.totalWidth_toneFields, toneFields, Holds,
    holds_flatMap_range (x.totalWidth_antennaFields _), antennaFields, holds_flatMap_range (f := x.entryFields _ _) (w := 16) fun _ => rfl,
    entryFields, byteField, totalWidth_flatMap_range x.totalWidth_toneFields, and_true, Nat.zero_add, hplace]

/-! ### Reading a report -/

theorem len_lt : x.len < 256 ^ 2 := x.fits

theorem length_header : x.header.length = 20 := by simp [header]

theorem length_bytes : x.bytes.length = 20 + x.len := by
  rw [bytes, List.length_append, x.length_header, length_leBytes]

theorem leVal_payload : leVal (leBytes x.len (pack x.fields)) = pack x.fields := by
  have hlt := pack_lt x.fields
  rw [x.totalWidth_fields, Nat.pow_mul] at hlt
  exact leVal_leBytes_of_lt hlt

theorem charAt_eq {v o : ℕ} {c : Int8} (h : slice 8 v o = c.toUInt8.toNat) : charAt v o = c := by
  rw [charAt, h, UInt8.ofNat_toNat, Int8.toInt8_toUInt8]

/-- The bits of the report are its entries. -/
theorem csiOf_payload : csiOf (leVal (leBytes x.len (pack x.fields) ++ rest)) x.nrx x.ntx = x.bfee.csi := by
  have hholds : Holds (pack x.fields) 0 x.fields := holds_iff.mpr (slice_zero (pack_lt _))
  obtain ⟨hentry, -⟩ := x.holds_fields.mp hholds
  unfold csiOf
  refine congrArg (Array3.mk _ _ _) (funext fun t => funext fun r => funext fun i => ?_)
  obtain ⟨hreal, himag⟩ := (hentry i i.isLt).2 r r.isLt t t.isLt
  have hpair : (r : ℕ) * x.ntx.toNat + t + 1 ≤ x.pairs := by
    calc (r : ℕ) * x.ntx.toNat + t + 1 ≤ (r + 1) * x.ntx.toNat := by rw [Nat.succ_mul]; exact Nat.add_lt_add_left t.isLt _
      _ ≤ x.pairs := Nat.mul_le_mul_right _ r.isLt
  have hplace : i * (3 + 16 * x.pairs) + 3 + 16 * (r * x.ntx.toNat + t) + 16 ≤ 8 * x.len := by
    have htone : ((i : ℕ) + 1) * (3 + 16 * x.pairs) ≤ 30 * (3 + 16 * x.pairs) := Nat.mul_le_mul_right _ i.isLt
    rw [Nat.succ_mul] at htone
    have hlen : x.len = 60 * x.pairs + 12 := rfl
    omega
  have hfront : ∀ o, o + 8 ≤ 8 * x.len →
      charAt (leVal (leBytes x.len (pack x.fields) ++ rest)) o = charAt (pack x.fields) o := fun o ho => by
    rw [charAt, charAt, slice_leVal_append (by rwa [length_leBytes]), x.leVal_payload]
  have hpairs : x.nrx.toNat * x.ntx.toNat = x.pairs := rfl
  simp only [hpairs]
  rw [hfront _ (by omega), hfront _ (by omega), charAt_eq hreal, charAt_eq himag]

theorem byteAt_header {i : ℕ} (hi : i < 20) : byteAt (x.bytes ++ rest) i = x.header.getD i 0 := by
  rw [byteAt, List.getD_append _ _ _ _ (by rw [length_bytes]; omega), bytes,
    List.getD_append _ _ _ _ (by rw [length_header]; exact hi)]

theorem readBfee_bytes : readBfee (x.bytes ++ rest) = some (.ok x.bfee) := by
  have hpairs : pairsAt (byteAt (x.bytes ++ rest)) = x.pairs := by
    rw [pairsAt, x.byteAt_header rest (by decide), x.byteAt_header rest (by decide)]
    rfl
  have hlen : lenAt (byteAt (x.bytes ++ rest)) = x.len := by
    rw [lenAt, x.byteAt_header rest (by decide), x.byteAt_header rest (by decide)]
    exact leVal_leBytes_of_lt (w := 2) x.len_lt
  have hdrop : (x.bytes ++ rest).drop 20 = leBytes x.len (pack x.fields) ++ rest := by
    rw [bytes, List.append_assoc, List.drop_left' x.length_header]
  refine readBfee_eq_ok_iff.mpr ⟨?_, ?_, fun _ => ?_, ?_⟩
  · rw [List.length_append, x.length_bytes]
    omega
  · rw [hlen, hpairs]
    rfl
  · rw [hlen, List.length_append, x.length_bytes]
    omega
  · have h32 : x.timestampLow.toNat < 256 ^ 4 := x.timestampLow.toNat_lt
    have h16 : ∀ y : UInt16, y.toNat < 256 ^ 2 := fun y => y.toNat_lt
    simp (disch := decide) only [bfeeAt, x.byteAt_header rest, hdrop]
    refine Bfee.mk.injEq .. ▸ ⟨?_, ?_, rfl, rfl, rfl, rfl, rfl, (Int8.toInt8_toUInt8 _).symm, rfl, rfl, ?_, (x.csiOf_payload rest).symm⟩
    · exact (UInt32.toNat_inj.mp ((toNat_four _ _ _ _).trans (leVal_leBytes_of_lt h32))).symm
    · exact (UInt16.toNat_inj.mp ((toNat_ushort _ _).trans (leVal_leBytes_of_lt (h16 x.bfeeCount)))).symm
    · exact (UInt16.toNat_inj.mp ((toNat_ushort _ _).trans (leVal_leBytes_of_lt (h16 x.rate)))).symm

end Report

/-! ### What is read is a report -/

theorem toNat_charAt (v o : ℕ) : (charAt v o).toUInt8.toNat = slice 8 v o := by
  rw [charAt, UInt8.toUInt8_toInt8, UInt8.toNat_ofNat_of_lt' (slice_lt 8 v o)]

/-- The report whose header is `b` and whose bits are those of `v`. -/
def reportAt (b : ℕ → UInt8) (v : ℕ) (hfits : 60 * pairsAt b + 12 < 2 ^ 16) : Report :=
  let w := 3 + 16 * pairsAt b
  { bfeeAt b (csiOf v (b 8) (b 9)) with
    reserved := (b 6).toUInt16 + ((b 7).toUInt16 <<< 8)
    antennaSel := b 15
    skipped := fun i => ⟨slice 3 v (i * w), slice_lt 3 _ _⟩
    real := fun i r t => charAt v (i * w + 3 + 16 * (r * (b 9).toNat + t))
    imag := fun i r t => charAt v (i * w + 3 + 16 * (r * (b 9).toNat + t) + 8)
    spare := ⟨slice 6 v (30 * w), slice_lt 6 _ _⟩
    fits := hfits }

theorem len_reportAt {b : ℕ → UInt8} {v : ℕ} (hfits : 60 * pairsAt b + 12 < 2 ^ 16) :
    (reportAt b v hfits).len = 60 * pairsAt b + 12 := rfl

theorem pack_reportAt {b : ℕ → UInt8} {v : ℕ} (hfits : 60 * pairsAt b + 12 < 2 ^ 16) (hv : v < 256 ^ (60 * pairsAt b + 12)) :
    pack (reportAt b v hfits).fields = v := by
  have hholds : Holds v 0 (reportAt b v hfits).fields := (Report.holds_fields _).mpr
    ⟨fun i _ => ⟨rfl, fun r _ t _ => ⟨(toNat_charAt _ _).symm, (toNat_charAt _ _).symm⟩⟩, rfl⟩
  have hslice := holds_iff.mp hholds
  have hlt : v < 2 ^ (8 * (60 * pairsAt b + 12)) := by
    rw [Nat.pow_mul]
    exact hv
  rw [Report.totalWidth_fields, len_reportAt, slice_zero hlt] at hslice
  exact hslice.symm

theorem header_reportAt {b : ℕ → UInt8} {v : ℕ} (hfits : 60 * pairsAt b + 12 < 2 ^ 16) (hlen : lenAt b = 60 * pairsAt b + 12) :
    (reportAt b v hfits).header = Reservoir.firstBytes b 20 := by
  have hushort : ∀ c d : UInt8, leBytes 2 (c.toUInt16 + (d.toUInt16 <<< 8)).toNat = [c, d] := fun c d => by
    rw [toNat_ushort]
    exact leBytes_leVal [c, d]
  have hstamp : leBytes 4 ((b 0).toUInt32 + ((b 1).toUInt32 <<< 8) + ((b 2).toUInt32 <<< 16) + ((b 3).toUInt32 <<< 24)).toNat =
      [b 0, b 1, b 2, b 3] := by
    rw [toNat_four]
    exact leBytes_leVal [b 0, b 1, b 2, b 3]
  have hannounced : leBytes 2 (60 * pairsAt b + 12) = [b 16, b 17] := by
    rw [← hlen, lenAt]
    exact leBytes_leVal [b 16, b 17]
  rw [Report.header, len_reportAt hfits, hannounced]
  simp only [reportAt, bfeeAt, hushort, hstamp, UInt8.toUInt8_toInt8]
  rfl

theorem exists_report {inBytes : List UInt8} (hlen : lenAt (byteAt inBytes) = 60 * pairsAt (byteAt inBytes) + 12)
    (hroom : 20 + lenAt (byteAt inBytes) ≤ inBytes.length) : ∃ (x : Report) (rest : List UInt8), inBytes = x.bytes ++ rest := by
  have hfits : 60 * pairsAt (byteAt inBytes) + 12 < 256 ^ 2 := by
    rw [← hlen]
    exact leVal_lt [_, _]
  obtain ⟨payload, hpayload⟩ : ∃ payload, payload = (inBytes.drop 20).take (60 * pairsAt (byteAt inBytes) + 12) := ⟨_, rfl⟩
  have hlength : payload.length = 60 * pairsAt (byteAt inBytes) + 12 := by
    rw [hpayload, List.length_take, List.length_drop]
    omega
  have hbytes : leBytes (60 * pairsAt (byteAt inBytes) + 12) (leVal payload) = payload := by
    rw [← hlength]
    exact leBytes_leVal payload
  have hfront : inBytes.take 20 = Reservoir.firstBytes (byteAt inBytes) 20 := Reservoir.take_eq_firstBytes (by omega)
  refine ⟨reportAt (byteAt inBytes) (leVal payload) hfits, inBytes.drop (20 + (60 * pairsAt (byteAt inBytes) + 12)), ?_⟩
  rw [Report.bytes, pack_reportAt hfits (hlength ▸ leVal_lt payload), len_reportAt hfits, hbytes, header_reportAt hfits hlen,
    hpayload, ← hfront, List.append_assoc, ← List.drop_drop, List.take_append_drop, List.take_append_drop]

/-- An array of bytes is read exactly when a report stands at its front, and what is read is that report. -/
theorem readBfee_ok_iff (inBytes : List UInt8) (r : Bfee) (hpairs : 0 < r.nrx.toNat * r.ntx.toNat) :
    readBfee inBytes = some (.ok r) ↔ ∃ (x : Report) (rest : List UInt8), inBytes = x.bytes ++ rest ∧ r = x.bfee := by
  constructor
  · intro h
    obtain ⟨-, hlen, hroom, rfl⟩ := readBfee_eq_ok_iff.mp h
    obtain ⟨x, rest, hx⟩ := exists_report hlen (hroom hpairs)
    have hread := x.readBfee_bytes rest
    rw [← hx, h] at hread
    exact ⟨x, rest, hx, Except.ok.inj (Option.some.inj hread)⟩
  · rintro ⟨x, rest, rfl, rfl⟩
    exact x.readBfee_bytes rest

/-- One pair of antennas, with the same entry for each subcarrier. -/
def oneReport : Report where
  timestampLow := 1000
  bfeeCount := 1
  reserved := 0
  nrx := 1
  ntx := 1
  rssiA := 40
  rssiB := 0
  rssiC := 0
  noise := -92
  agc := 30
  antennaSel := 0
  rate := 0x4101
  skipped _ := 0
  real _ _ _ := 3
  imag _ _ _ := -4
  spare := 0
  fits := by decide

theorem readBfee_ok_iff_one : 0 < oneReport.bfee.nrx.toNat * oneReport.bfee.ntx.toNat ∧
    readBfee oneReport.bytes = some (.ok oneReport.bfee) :=
  ⟨by decide, (readBfee_ok_iff _ _ (by decide)).mpr ⟨oneReport, [], (List.append_nil _).symm, rfl⟩⟩

end AtherosCsi
