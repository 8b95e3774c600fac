import AtherosCsi.Lib.LittleEndian
import AtherosCsi.UnpackTrace

/-! What unpacking CSI computes. The words fetched so far, minus the bits shifted out, are the number
    `leVal` of the bytes read divided by a power of two (`Reservoir.Holds`); fetching a word and shifting
    out ten bits keep that. So part `p` of the matrix is `chunk 10 v p` of the number `v` that the bytes
    form, whatever the width of the counters and wherever the parts are stored (`unpackTraced_rule`). -/

namespace AtherosCsi
open Loop LittleEndian

/-! ### Words -/

theorem word16_toNat (hi lo : UInt8) : (word16 hi lo).toNat = lo.toNat + 256 * hi.toNat := by
  have hlo : lo.toNat % 256 = lo.toNat := Nat.mod_eq_of_lt lo.toNat_lt
  have hhi := hi.toNat_lt
  have hshift : hi.toNat * 256 &&& 65280 = hi.toNat * 256 := by
    have h1 : hi.toNat * 256 = hi.toNat <<< 8 := by rw [Nat.shiftLeft_eq]
    have h2 : (65280 : ℕ) = 255 <<< 8 := by decide
    rw [h1, h2, ← Nat.shiftLeft_and_distrib, Nat.and_two_pow_sub_one_of_lt_two_pow (n := 8) (by omega)]
  have hor : hi.toNat * 256 ||| lo.toNat = hi.toNat * 256 + lo.toNat := by
    rw [Nat.mul_comm, ← Nat.two_pow_add_eq_or_of_lt (i := 8) (by omega)]
  have hsum : (word16 hi lo).toNat = (hi.toNat * 256 % 65536 &&& 65280) ||| (lo.toNat &&& 255) := by
    simp [word16, Nat.shiftLeft_eq]
  have hlt : hi.toNat * 256 < 65536 := by omega
  rw [hsum, Nat.mod_eq_of_lt hlt, hshift,
    Nat.and_two_pow_sub_one_of_lt_two_pow (n := 8) (by omega), hor]
  omega

/-! ### Signed parts -/

def twosComplement (w v : ℕ) : ℤ := if v < 2 ^ (w - 1) then v else v - 2 ^ w

def part (v p : ℕ) : Int32 := Int32.ofInt (twosComplement 10 (chunk 10 v p))

theorem bitConvert_ten : ∀ v : Fin 1024, bitConvert (UInt32.ofNat v).toInt32 10 = Int32.ofInt (twosComplement 10 v) := by
  decide +kernel

theorem twosComplement_chunk_range (v p : ℕ) :
    -512 ≤ twosComplement 10 (chunk 10 v p) ∧ twosComplement 10 (chunk 10 v p) ≤ 511 := by
  have hlt := chunk_lt 10 v p
  unfold twosComplement
  split <;> omega

theorem part_toInt (v p : ℕ) : (part v p).toInt = twosComplement 10 (chunk 10 v p) := by
  have hrange := twosComplement_chunk_range v p
  exact Int32.toInt_ofInt_of_le (by simp; omega) (by simp; omega)

namespace Reservoir
variable {w : ℕ}

theorem value_eq (q : Reservoir w) : q.value = Int32.ofInt (twosComplement 10 (q.currentData.toNat % 1024)) := by
  have hmask : q.currentData &&& (((1 : UInt32) <<< 10) - 1) = UInt32.ofNat (q.currentData.toNat % 1024) := by
    apply UInt32.toNat_inj.mp
    have h : (((1 : UInt32) <<< 10) - 1).toNat = 2 ^ 10 - 1 := by decide
    have hlt : q.currentData.toNat % 1024 < 2 ^ 32 := by omega
    rw [UInt32.toNat_and, h, Nat.and_two_pow_sub_one_eq_mod, UInt32.toNat_ofNat', Nat.mod_eq_of_lt hlt]
  rw [value, hmask]
  exact bitConvert_ten ⟨q.currentData.toNat % 1024, Nat.mod_lt _ (by decide)⟩

/-! ### The reservoir -/

def firstBytes (b : ℕ → UInt8) (n : ℕ) : List UInt8 := (List.range n).map b

@[simp] theorem length_firstBytes (b : ℕ → UInt8) (n : ℕ) : (firstBytes b n).length = n := by simp [firstBytes]

theorem firstBytes_add (b : ℕ → UInt8) (m n : ℕ) :
    firstBytes b (m + n) = firstBytes b m ++ firstBytes (fun i => b (m + i)) n := by
  simp [firstBytes, List.range_add, Function.comp_def]

theorem getElem?_eq_some_getD {bytes : List UInt8} {i : ℕ} (hi : i < bytes.length) : bytes[i]? = some (bytes.getD i 0) := by
  simp [List.getD_eq_getElem?_getD, hi]

theorem take_eq_firstBytes {bytes : List UInt8} {n : ℕ} (hn : n ≤ bytes.length) :
    bytes.take n = firstBytes (fun i => bytes.getD i 0) n := by
  apply List.ext_getElem
  · simp [hn]
  · intro i h₁ h₂
    have hi : i < bytes.length := by simp at h₁; omega
    simp [firstBytes, hi]

/-- After `p` parts of `b` were used and with `n` bits left, `j` words have been fetched, and what is kept
    of them is what remains above the `10 * p` bits used. -/
structure Holds (b : ℕ → UInt8) (p n j : ℕ) (q : Reservoir w) : Prop where
  idx : q.idx.toNat = 2 * j
  bits : 16 * j = 10 * p + n
  bitsLeft : q.bitsLeft = BitVec.ofNat w n
  currentData : q.currentData.toNat = leVal (firstBytes b (2 * j)) / 2 ^ (10 * p)

theorem promote_ofNat {signed : Bool} {n : ℕ} (hw : 8 ≤ w) (hn : n < 128) :
    promote signed (BitVec.ofNat w n) = n := by
  have hpow : 2 ^ 8 ≤ 2 ^ w := Nat.pow_le_pow_right (by decide) hw
  have hmod : n % 2 ^ w = n := Nat.mod_eq_of_lt (by omega)
  cases signed
  · simp [promote, hmod]
  · rw [promote, if_pos rfl, BitVec.toInt_eq_toNat_of_lt]
    · simp [hmod]
    · simp only [BitVec.toNat_ofNat, hmod]
      omega

theorem fetch_eq {mem : ℕ → Option UInt8} {b : ℕ → UInt8} {idx : UInt32} {i : ℕ} (hi : idx.toNat = i)
    (hlt : i + 2 < 2 ^ 32) (h₀ : mem i = some (b i)) (h₁ : mem (i + 1) = some (b (i + 1))) :
    ∃ hData idx', fetch mem idx = some (hData, idx') ∧ hData.toNat = (b i).toNat + 256 * (b (i + 1)).toNat ∧
      idx'.toNat = i + 2 := by
  have hone : (idx + 1).toNat = i + 1 := by simp [UInt32.toNat_add, hi]; omega
  refine ⟨_, _, by simp only [fetch, hi, h₀, hone, h₁]; rfl, ?_, ?_⟩
  · have := (b i).toNat_lt
    have := (b (i + 1)).toNat_lt
    simp [UInt32.toNat_add, Nat.shiftLeft_eq]
    omega
  · simp [UInt32.toNat_add, hi]
    omega

variable {b : ℕ → UInt8} {p n j : ℕ} {q : Reservoir w}

theorem leVal_firstBytes_word (b : ℕ → UInt8) (m : ℕ) :
    leVal (firstBytes b (m + 2)) = leVal (firstBytes b m) + 2 ^ (8 * m) * ((b m).toNat + 256 * (b (m + 1)).toNat) := by
  rw [firstBytes_add, leVal_append, length_firstBytes, Nat.pow_mul]
  simp [firstBytes, List.range_succ]

theorem Holds.bits_eq (h : Holds b p n j q) : 8 * (2 * j) = 10 * p + n := by
  have := h.bits
  omega

theorem Holds.lt (h : Holds b p n j q) : q.currentData.toNat < 2 ^ n := by
  have hlt := leVal_lt (firstBytes b (2 * j))
  have hpow : (256 : ℕ) = 2 ^ 8 := by norm_num
  rw [length_firstBytes, hpow, ← Nat.pow_mul, h.bits_eq, Nat.pow_add] at hlt
  rw [h.currentData]
  exact Nat.div_lt_of_lt_mul hlt

theorem start_holds {mem : ℕ → Option UInt8} (h₀ : mem 0 = some (b 0)) (h₁ : mem 1 = some (b 1)) :
    ∃ q : Reservoir w, start mem = some q ∧ Holds b 0 16 1 q := by
  obtain ⟨hData, idx, hf, hval, hidx⟩ := fetch_eq UInt32.toNat_zero (by decide) h₀ h₁
  refine ⟨⟨idx, hData &&& (((1 : UInt32) <<< 16) - 1), 16⟩, by simp only [start, hf]; rfl, hidx, rfl, rfl, ?_⟩
  have hmask : (((1 : UInt32) <<< 16) - 1).toNat = 2 ^ 16 - 1 := by decide
  have := (b 0).toNat_lt
  have := (b 1).toNat_lt
  rw [UInt32.toNat_and, hmask, Nat.and_two_pow_sub_one_eq_mod, hval]
  simp [firstBytes, List.range_succ]
  omega

/-- Fetching a word, when fewer than ten bits are left, leaves at least ten. -/
theorem Holds.refill {mem : ℕ → Option UInt8} (signed : Bool) {m : ℕ} (hw : 8 ≤ w) (h : Holds b p n j q)
    (hn : n ≤ 16) (hm : m < 2 ^ 32) (hmem : ∀ i < m, mem i = some (b i)) (hj : 2 * j ≤ m)
    (hmore : n < 10 → 2 * j + 2 ≤ m) :
    ∃ q' n' j', q.refill signed mem = some q' ∧ Holds b p n' j' q' ∧ 10 ≤ n' ∧ n' ≤ 25 ∧ 2 * j' ≤ m := by
  have hprom : promote signed q.bitsLeft = n := by rw [h.bitsLeft, promote_ofNat hw (by omega)]
  by_cases hlt : n < 10
  · have hfit := hmore hlt
    obtain ⟨hData, idx, hf, hval, hidx⟩ :=
      fetch_eq h.idx (by omega) (hmem (2 * j) (by omega)) (hmem (2 * j + 1) (by omega))
    refine ⟨⟨idx, q.currentData + (hData <<< n.toUInt32), q.bitsLeft + 16⟩, n + 16, j + 1, ?_, ?_, by omega,
      by omega, by omega⟩
    · have hneg : (n : ℤ) - 10 < 0 := by omega
      simp only [Reservoir.refill, hprom, hneg, if_true, hf, Int.toNat_natCast]
      rfl
    · have hcur := h.lt
      have hb₀ := (b (2 * j)).toNat_lt
      have hb₁ := (b (2 * j + 1)).toNat_lt
      have hpow : 2 ^ n ≤ 2 ^ 10 := Nat.pow_le_pow_right (by decide) (by omega)
      have hmul : hData.toNat * 2 ^ n ≤ 65535 * 2 ^ 10 := Nat.mul_le_mul (by omega) hpow
      have hshift : (hData <<< n.toUInt32).toNat = hData.toNat * 2 ^ n := by
        have h32 : n.toUInt32.toNat % 32 = n := by simp; omega
        rw [UInt32.toNat_shiftLeft, h32, Nat.shiftLeft_eq, Nat.mod_eq_of_lt (by omega)]
      refine ⟨by rw [hidx]; ring, by have := h.bits; omega, ?_, ?_⟩
      · rw [h.bitsLeft]
        exact (BitVec.ofNat_add n 16).symm
      · rw [UInt32.toNat_add, hshift, Nat.mod_eq_of_lt (by omega), Nat.mul_add, leVal_firstBytes_word, h.bits_eq,
          Nat.pow_add, Nat.mul_assoc, Nat.add_mul_div_left _ _ (Nat.two_pow_pos _), h.currentData, hval]
        ring
  · refine ⟨q, n, j, ?_, h, by omega, by omega, by omega⟩
    have hpos : ¬ (n : ℤ) - 10 < 0 := by omega
    simp only [Reservoir.refill, hprom, hpos, if_false]

/-- With ten bits left, the next part is there to read and to shift out. -/
theorem Holds.drop (h : Holds b p n j q) (hn : 10 ≤ n) {m : ℕ} (hm : 2 * j ≤ m) :
    q.value = part (leVal (firstBytes b m)) p ∧ Holds b (p + 1) (n - 10) j q.drop := by
  refine ⟨?_, h.idx, by have := h.bits; omega, ?_, ?_⟩
  · have hchunk : chunk 10 (leVal (firstBytes b m)) p = chunk 10 (leVal (firstBytes b (2 * j))) p := by
      rw [← Nat.add_sub_cancel' hm, firstBytes_add]
      exact chunk_leVal_append (by rw [length_firstBytes]; have := h.bits; omega) _
    rw [value_eq, part, hchunk, h.currentData]
    rfl
  · have : n = n - 10 + 10 := by omega
    rw [Reservoir.drop, h.bitsLeft]
    conv_lhs => rw [this, BitVec.ofNat_add]
    simp
  · have hshift : (q.currentData >>> 10).toNat = q.currentData.toNat / 2 ^ 10 := by
      rw [UInt32.toNat_shiftRight, Nat.shiftRight_eq_div_pow]
      rfl
    rw [Reservoir.drop, hshift, h.currentData, Nat.div_div_eq_div_mul, ← Nat.pow_add, ← Nat.mul_succ]

theorem Holds.toNat_bitsLeft (h : Holds b p n j q) (hw : 8 ≤ w) (hn : n ≤ 25) : q.bitsLeft.toNat = n := by
  have hpow : 2 ^ 8 ≤ 2 ^ w := Nat.pow_le_pow_right (by decide) hw
  rw [h.bitsLeft, toNat_counter (by omega)]

end Reservoir

/-! ### The trace -/

/-- At this moment the bytes before `idx` have been read, one after the other, and the variables hold all
    bits of them that were not shifted out: no addition, subtraction or shift has wrapped or lost one. -/
structure Snapshot.Exact {w : ℕ} (b : ℕ → UInt8) (s : Snapshot w) : Prop where
  reads : s.reads = List.range s.q.idx.toNat
  bits : s.q.bitsLeft.toNat + 10 * s.parts = 8 * s.q.idx.toNat
  bits_le : s.q.bitsLeft.toNat ≤ 25
  data : s.q.currentData.toNat = leVal (Reservoir.firstBytes b s.q.idx.toNat) / 2 ^ (10 * s.parts)
  data_lt : s.q.currentData.toNat < 2 ^ s.q.bitsLeft.toNat

namespace Traced
variable {w : ℕ} {b : ℕ → UInt8} {p n j : ℕ} {t : Traced w}

/-- The run so far has shifted out `p` parts, and each of its moments was exact. -/
structure Tracks (b : ℕ → UInt8) (p : ℕ) (t : Traced w) : Prop where
  parts : t.parts = p
  reads : t.reads = List.range t.q.idx.toNat
  read_two : 2 ≤ t.q.idx.toNat
  exact : ∀ s ∈ t.snapshots, s.Exact b

/-- Noting a moment at which the reservoir holds what it should. -/
theorem Tracks.note {s : Snapshot w} {ss : List (Snapshot w)} (hw : 8 ≤ w) (hq : s.q.Holds b s.parts n j) (hn : n ≤ 25)
    (hj : 1 ≤ j) (hreads : s.reads = List.range (2 * j)) (hss : ∀ s ∈ ss, s.Exact b) :
    Tracks b s.parts (Traced.note s ss) := by
  have hbits := hq.toNat_bitsLeft hw hn
  have hs : s.Exact b := by
    refine ⟨by rw [hreads, hq.idx], ?_, by omega, by rw [hq.currentData, hq.idx], by rw [hbits]; exact hq.lt⟩
    rw [hbits, hq.idx, hq.bits_eq, Nat.add_comm]
  refine ⟨rfl, hs.reads, ?_, fun u hu => ?_⟩
  · have : (Traced.note s ss).q.idx.toNat = 2 * j := hq.idx
    omega
  · rcases List.mem_append.mp hu with hu | hu
    · exact hss u hu
    · rw [List.mem_singleton.mp hu]
      exact hs

theorem start_tracks {mem : ℕ → Option UInt8} (hw : 8 ≤ w) (h₀ : mem 0 = some (b 0)) (h₁ : mem 1 = some (b 1)) :
    ∃ t : Traced w, start mem = some t ∧ t.q.Holds b 0 16 1 ∧ t.Tracks b 0 := by
  obtain ⟨q, hstart, hq⟩ := Reservoir.start_holds (w := w) h₀ h₁
  refine ⟨Traced.note ⟨[0, 1], 0, q⟩ [], by rw [start_eq, hstart]; rfl, hq, ?_⟩
  exact Tracks.note (s := ⟨[0, 1], 0, q⟩) hw hq (by decide) (Nat.le_refl 1) rfl fun s hs => by cases hs

theorem Tracks.refill {mem : ℕ → Option UInt8} (signed : Bool) {m : ℕ} (hw : 8 ≤ w) (ht : t.Tracks b p)
    (hq : t.q.Holds b p n j) (hn : n ≤ 16) (hm : m < 2 ^ 32) (hmem : ∀ i < m, mem i = some (b i)) (hj : 2 * j ≤ m)
    (hmore : n < 10 → 2 * j + 2 ≤ m) :
    ∃ t' n' j', t.refill signed mem = some t' ∧ t'.q.Holds b p n' j' ∧ t'.Tracks b p ∧ 10 ≤ n' ∧ n' ≤ 25 ∧ 2 * j' ≤ m := by
  obtain ⟨q', n', j', hr, hq', hn', hle', hj'⟩ := hq.refill signed hw hn hm hmem hj hmore
  have hprom : promote signed t.q.bitsLeft = n := by rw [hq.bitsLeft, Reservoir.promote_ofNat hw (by omega)]
  by_cases hlt : n < 10
  · refine ⟨Traced.note ⟨t.reads ++ [t.q.idx.toNat, (t.q.idx + 1).toNat], t.parts, q'⟩ t.snapshots, n', j', ?_, hq', ?_,
      hn', hle', hj'⟩
    · have hneg : promote signed t.q.bitsLeft - 10 < 0 := by omega
      simp only [refill_eq, hr, Option.map_some, hneg, if_true]
    · -- One word was fetched.
      have hword : j' = j + 1 := by
        have := hq.bits
        have := hq'.bits
        omega
      have hidx := hq.idx
      have hnext : (t.q.idx + 1).toNat = 2 * j + 1 := by
        have := hmore hlt
        rw [UInt32.toNat_add, hidx, UInt32.toNat_one]
        omega
      have hreads : t.reads ++ [t.q.idx.toNat, (t.q.idx + 1).toNat] = List.range (2 * j') := by
        rw [ht.reads, hnext, hidx, hword, Nat.mul_succ, List.range_succ, List.range_succ, List.append_assoc]
        rfl
      have hnoted := Tracks.note (s := ⟨t.reads ++ [t.q.idx.toNat, (t.q.idx + 1).toNat], t.parts, q'⟩) hw
        (by rw [ht.parts]; exact hq') hle' (by omega) hreads ht.exact
      rwa [ht.parts] at hnoted ⊢
  · refine ⟨t, n, j, ?_, hq, ht, by omega, by omega, hj⟩
    have hpos : ¬ promote signed t.q.bitsLeft - 10 < 0 := by omega
    simp only [refill_eq, hr, Option.map_some, hpos, if_false]

theorem Tracks.drop (hw : 8 ≤ w) (ht : t.Tracks b p) (hq : t.q.Holds b p n j) (hn : 10 ≤ n) (hle : n ≤ 25) {m : ℕ}
    (hm : 2 * j ≤ m) :
    t.q.value = part (leVal (Reservoir.firstBytes b m)) p ∧ t.drop.q.Holds b (p + 1) (n - 10) j ∧
      t.drop.Tracks b (p + 1) := by
  obtain ⟨hv, hd⟩ := hq.drop hn hm
  refine ⟨hv, hd, ?_⟩
  have htwo := ht.read_two
  have hidx := hq.idx
  have hnoted := Tracks.note (s := ⟨t.reads, t.parts + 1, t.q.drop⟩) hw (by rw [ht.parts]; exact hd) (by omega)
    (by omega) (by rw [ht.reads, hidx]) ht.exact
  rw [ht.parts] at hnoted
  rw [Traced.drop, ht.parts]
  exact hnoted

end Traced

/-! ### The loops -/

/-- The number of bytes that unpacking `N` entries reads: whole words, and at least one. -/
def bytesRead (N : ℕ) : ℕ := 2 * max 1 ((20 * N + 15) / 16)

def imagPart (v e : ℕ) : Int32 := part v (2 * e)

def realPart (v e : ℕ) : Int32 := part v (2 * e + 1)

theorem entry_lt_iff {nc nr numTones k c r : ℕ} (hr : r < nr) (hc : c < nc) :
    (k * nc + c) * nr + r < numTones * nc * nr ↔ k < numTones := by
  constructor
  · intro h
    by_contra hk
    have : numTones * nc * nr ≤ k * nc * nr := Nat.mul_le_mul_right _ (Nat.mul_le_mul_right _ (by omega))
    have : k * nc * nr ≤ (k * nc + c) * nr := Nat.mul_le_mul_right _ (by omega)
    omega
  · intro hk
    calc (k * nc + c) * nr + r < (k * nc + c) * nr + nr := by omega
      _ = (k * nc + c + 1) * nr := by ring
      _ ≤ (k * nc + nc) * nr := Nat.mul_le_mul_right _ (by omega)
      _ = (k + 1) * nc * nr := by ring
      _ ≤ numTones * nc * nr := Nat.mul_le_mul_right _ (Nat.mul_le_mul_right _ (by omega))

section Rule
variable {σ : Type} {w : ℕ} {signed : Bool} {mem : ℕ → Option UInt8} {b : ℕ → UInt8}
  {setImag setReal : ℕ → ℕ → ℕ → Int32 → σ → Option σ}

def Before (b : ℕ → UInt8) (m e : ℕ) (q : Reservoir w) : Prop :=
  ∃ n j, q.Holds b (2 * e) n j ∧ n ≤ 16 ∧ 2 * j ≤ m

theorem unpackEntryTraced_eq (signed : Bool) {N e : ℕ} {t : Traced w} {x y z : σ} {k c r : BitVec w} (hw : 8 ≤ w)
    (hm : bytesRead N < 2 ^ 32) (hmem : ∀ i < bytesRead N, mem i = some (b i)) (he : e < N)
    (hq : Before b (bytesRead N) e t.q) (ht : t.Tracks b (2 * e))
    (himag : setImag r.toNat c.toNat k.toNat (imagPart (leVal (Reservoir.firstBytes b (bytesRead N))) e) x = some y)
    (hreal : setReal r.toNat c.toNat k.toNat (realPart (leVal (Reservoir.firstBytes b (bytesRead N))) e) y = some z) :
    ∃ t', unpackEntryTraced signed mem setImag setReal k c r (t, x) = some (t', z) ∧
      Before b (bytesRead N) (e + 1) t'.q ∧ t'.Tracks b (2 * (e + 1)) := by
  have hceil : 20 * N ≤ 8 * bytesRead N := by unfold bytesRead; omega
  -- A word is fetched only while some of the `20 * N` bits are still to come, and then all of it is there.
  have fits : ∀ {p n j : ℕ}, 16 * j = 10 * p + n → p < 2 * N → n < 10 → 2 * j + 2 ≤ bytesRead N := by
    intro p n j hbits hp hn
    unfold bytesRead
    omega
  obtain ⟨n, j, hq, hn, hj⟩ := hq
  obtain ⟨t₁, n₁, j₁, hr₁, hq₁, ht₁, hn₁, hle₁, hj₁⟩ :=
    ht.refill signed hw hq hn hm hmem hj (fits hq.bits (by omega))
  obtain ⟨hv₁, hd₁, htd₁⟩ := ht₁.drop hw hq₁ hn₁ hle₁ hj₁
  obtain ⟨t₂, n₂, j₂, hr₂, hq₂, ht₂, hn₂, hle₂, hj₂⟩ :=
    htd₁.refill signed hw hd₁ (by omega) hm hmem hj₁ (fits hd₁.bits (by omega))
  obtain ⟨hv₂, hd₂, htd₂⟩ := ht₂.drop hw hq₂ hn₂ hle₂ hj₂
  refine ⟨t₂.drop, ?_, ⟨n₂ - 10, j₂, hd₂, by omega, hj₂⟩, htd₂⟩
  rw [imagPart, ← hv₁] at himag
  rw [realPart, ← hv₂] at hreal
  simp only [unpackEntryTraced, hr₁, Option.bind_eq_bind, Option.bind_some, himag, hr₂, hreal]
  rfl

/-- The rule of unpacking. Entry `(k * nc + c) * nr + r` is stored at receive antenna `r`, transmit antenna
    `c` and subcarrier `k`; what storing the entries one after the other establishes holds at the end. The
    bytes are read in order, and no moment of the run loses a bit. -/
theorem unpackTraced_rule (signed : Bool) {nr nc numTones N : ℕ} {x : σ} (P : ℕ → σ → Prop) (hw : 8 ≤ w) (hnr : nr < 2 ^ w)
    (hnc : nc < 2 ^ w) (hnt : numTones < 2 ^ w) (hN : N = numTones * nc * nr) (hm : bytesRead N < 2 ^ 32)
    (hmem : ∀ i < bytesRead N, mem i = some (b i)) (h0 : P 0 x)
    (hentry : ∀ k c r, k < numTones → c < nc → r < nr → ∀ s, P ((k * nc + c) * nr + r) s →
      ∃ t u, setImag r c k (imagPart (leVal (Reservoir.firstBytes b (bytesRead N))) ((k * nc + c) * nr + r)) s = some t ∧
        setReal r c k (realPart (leVal (Reservoir.firstBytes b (bytesRead N))) ((k * nc + c) * nr + r)) t = some u ∧
        P ((k * nc + c) * nr + r + 1) u) :
    ∃ t y, unpackTraced w signed mem nr nc numTones setImag setReal x = some (t, y) ∧ P N y ∧
      t.reads = List.range (bytesRead N) ∧ ∀ s ∈ t.snapshots, s.Exact b := by
  have hread : 2 ≤ bytesRead N := by unfold bytesRead; omega
  obtain ⟨t₀, hstart, hq, ht₀⟩ := Traced.start_tracks hw (hmem 0 (by omega)) (hmem 1 (by omega))
  let Q : ℕ → Traced w × σ → Prop := fun e s => (Before b (bytesRead N) e s.1.q ∧ s.1.Tracks b (2 * e)) ∧ P e s.2
  have entry : ∀ k c r, k < numTones → c < nc → r < nr → ∀ s, Q ((k * nc + c) * nr + r) s →
      ∃ t, unpackEntryTraced signed mem setImag setReal (BitVec.ofNat w k) (BitVec.ofNat w c) (BitVec.ofNat w r) s =
        some t ∧ Q ((k * nc + c) * nr + r + 1) t := by
    rintro k c r hk hc hr ⟨t, x⟩ ⟨⟨hq, ht⟩, hP⟩
    obtain ⟨y, z, hy, hz, hPz⟩ := hentry k c r hk hc hr x hP
    have he : (k * nc + c) * nr + r < N := by
      rw [hN]
      exact (entry_lt_iff hr hc).mpr hk
    have hr' := toNat_counter (hr.trans hnr)
    have hc' := toNat_counter (hc.trans hnc)
    have hk' := toNat_counter (hk.trans hnt)
    obtain ⟨t', ht', hb⟩ := unpackEntryTraced_eq signed (k := BitVec.ofNat w k) (c := BitVec.ofNat w c)
      (r := BitVec.ofNat w r) hw hm hmem he hq ht (by rw [hr', hc', hk']; exact hy) (by rw [hr', hc', hk']; exact hz)
    exact ⟨(t', z), ht', hb, hPz⟩
  have first : Q 0 (t₀, x) := ⟨⟨⟨16, 1, hq, Nat.le_refl _, by omega⟩, ht₀⟩, h0⟩
  obtain ⟨⟨t, y⟩, hrun, ⟨⟨n, j, hq, hn, hj⟩, ht⟩, hP⟩ := forUp_nest Q hnt hnc hnr first entry
  rw [← hN] at hq ht hP
  refine ⟨t, y, ?_, hP, ?_, ht.exact⟩
  · simp only [unpackTraced, hstart, Option.bind_eq_bind, Option.bind_some, hrun]
  · have hlast : t.q.idx.toNat = bytesRead N := by
      have hbits := hq.bits
      have hidx : t.q.idx.toNat = 2 * j := hq.idx
      have htwo : 2 ≤ t.q.idx.toNat := ht.read_two
      unfold bytesRead at hj ⊢
      omega
    rw [ht.reads, hlast]

end Rule

end AtherosCsi
