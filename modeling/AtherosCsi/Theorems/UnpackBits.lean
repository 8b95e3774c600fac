import AtherosCsi.Theorems.Unpackers

/-! The unpackers bit by bit. `fill_csi_matrix` stores the numbers that the bits of its input form, ten at
    a time, and reads the input in whole words. The last word may reach one byte behind the bits that are
    needed, so `read_csi.c` leaves a buffer that has just enough bytes for some sizes of the matrix. -/

namespace AtherosCsi
open LittleEndian Reservoir

/-! ### Ten bits -/

/-- The number that bits `i` to `i + 9` of the bytes form in two's complement, the lowest bit first. -/
def tenBitsAt (bytes : List UInt8) (i : ℕ) : ℤ :=
  twosComplement 10 (Nat.ofDigits 2 ((List.range 10).map fun j => bit bytes (i + j)))

theorem toInt_part_take {bytes : List UInt8} {n p : ℕ} (hp : 10 * (p + 1) ≤ 8 * n) (hn : n ≤ bytes.length) :
    (part (leVal (bytes.take n)) p).toInt = tenBitsAt bytes (10 * p) := by
  have hprefix : chunk 10 (leVal (bytes.take n)) p = chunk 10 (leVal bytes) p := by
    conv_rhs => rw [← List.take_append_drop n bytes]
    rw [chunk_leVal_append (by rw [List.length_take, Nat.min_eq_left hn]; exact hp)]
  rw [part_toInt, hprefix, chunk_eq_bits, tenBitsAt]

/-- `fill_csi_matrix` against its specification on bits. It stores all entries of the announced matrix and
    nothing else, reads the bytes of whole words in order, and no value of its variables on the way wraps or
    loses a bit. -/
theorem fillCsiMatrix_bits (bytes : List UInt8) (nr nc numTones : ℕ) (hnr : nr ≤ 3) (hnc : nc ≤ 3) (hnt : numTones ≤ 114)
    (henough : 2 * max 1 ((20 * (nr * nc * numTones) + 15) / 16) ≤ bytes.length) (m : CsiMatrix) :
    ∃ t m', fillCsiMatrixTraced (fun i => bytes[i]?) nr nc numTones m = some (t, m') ∧
      fillCsiMatrix (fun i => bytes[i]?) nr nc numTones m = some m' ∧
      (∀ (r c : Fin 3) (k : Fin 114),
        if (r : ℕ) < nr ∧ (c : ℕ) < nc ∧ (k : ℕ) < numTones then
          (m'.cell r c k).imag.toInt = tenBitsAt bytes (10 * (2 * ((k * nc + c) * nr + r))) ∧
          (m'.cell r c k).real.toInt = tenBitsAt bytes (10 * (2 * ((k * nc + c) * nr + r) + 1))
        else m'.cell r c k = m.cell r c k) ∧
      t.reads = List.range (2 * max 1 ((20 * (nr * nc * numTones) + 15) / 16)) ∧
      ∀ s ∈ t.snapshots, s.Exact fun i => bytes.getD i 0 := by
  have hN : nr * nc * numTones = numTones * nc * nr := by ring
  rw [hN] at henough ⊢
  have hread : bytesRead (numTones * nc * nr) ≤ bytes.length := henough
  have hmem : ∀ i < bytesRead (numTones * nc * nr), bytes[i]? = some (bytes.getD i 0) := fun i hi =>
    getElem?_eq_some_getD (hi.trans_le hread)
  obtain ⟨t, ht, hreads, hexact⟩ := fillCsiMatrixTraced_eq (by omega) (by omega) (by omega)
    (DimsFit.of_le ⟨hnr, hnc, hnt⟩) hmem m
  rw [← take_eq_firstBytes hread] at ht
  refine ⟨t, _, ht, by rw [← map_fillCsiMatrixTraced, ht]; rfl, fun r c k => ?_, hreads, hexact⟩
  split
  · rename_i hin
    have he := (entry_lt_iff hin.1 hin.2.1).mpr hin.2.2
    have hbits : 20 * (numTones * nc * nr) ≤ 8 * bytesRead (numTones * nc * nr) := by unfold bytesRead; omega
    simp only [filled, hin, and_self, if_true, csiEntry, imagPart, realPart]
    exact ⟨toInt_part_take (by omega) hread, toInt_part_take (by omega) hread⟩
  · rename_i hout
    simp only [filled, hout, if_false]

/-- One entry in three bytes: the word behind them is read too. -/
theorem fillCsiMatrix_bits_one : ∃ t m',
    fillCsiMatrixTraced (fun i => [0xff, 0x03, 0x08, 0x00][i]?) 1 1 1 CsiMatrix.zero = some (t, m') ∧
      t.reads = [0, 1, 2, 3] ∧ (m'.cell 0 0 0).imag.toInt = tenBitsAt [0xff, 0x03, 0x08, 0x00] 0 ∧
      (m'.cell 0 0 0).real.toInt = tenBitsAt [0xff, 0x03, 0x08, 0x00] 10 := by
  obtain ⟨t, m', ht, -, hcells, hreads, -⟩ :=
    fillCsiMatrix_bits [0xff, 0x03, 0x08, 0x00] 1 1 1 (by decide) (by decide) (by decide) (by decide) CsiMatrix.zero
  have hcell := hcells 0 0 0
  rw [if_pos (by decide)] at hcell
  exact ⟨t, m', ht, hreads, hcell⟩

/-! ### The buffer of the offline unpacker -/

/-- Every index at which `mexFunction` reads, on the call `read_csi(csi_buf, nr, nc, num_tones)`, lies in
    `csi_buf`. -/
def StaysInside (past : ℕ → UInt8) (csiBuf : List UInt8) (nr nc numTones : ℕ) : Prop :=
  ∃ t a, mexFunctionTraced (fun i => some (csiBuf[i]?.getD (past i))) nr nc numTones = some (t, a) ∧
    readCsi past csiBuf (some nr) (some nc) (some numTones) = some a ∧ ∀ i ∈ t.reads, i < csiBuf.length

theorem readCsi_reads (past : ℕ → UInt8) (csiBuf : List UInt8) (nr nc numTones : ℕ) (hnr : nr ≤ 3) (hnc : nc ≤ 3)
    (hnt : numTones ≤ 114) :
    ∃ t a, mexFunctionTraced (fun i => some (csiBuf[i]?.getD (past i))) nr nc numTones = some (t, a) ∧
      readCsi past csiBuf (some nr) (some nc) (some numTones) = some a ∧
      t.reads = List.range (bytesRead (nr * nc * numTones)) := by
  have hN : nr * nc * numTones = numTones * nc * nr := by ring
  obtain ⟨t, s, ht, -, hreads, -⟩ := @mexFunctionTraced_eq (fun i => some (csiBuf[i]?.getD (past i)))
    (fun i => csiBuf[i]?.getD (past i)) nr nc numTones hnr hnc hnt fun i _ => rfl
  refine ⟨t, _, ht, ?_, by rw [hreads, hN]⟩
  rw [readCsi, Option.bind_eq_bind, Option.bind_some, Option.bind_some, Option.bind_some, ← map_mexFunctionTraced, ht]
  rfl

theorem bytesRead_le_iff {N : ℕ} (hN : 0 < N) : bytesRead N ≤ (20 * N + 7) / 8 ↔ N % 4 = 0 ∨ N % 4 = 3 := by
  obtain ⟨q, r, rfl, hr⟩ : ∃ q r, N = 4 * q + r ∧ r < 4 := ⟨N / 4, N % 4, by omega, by omega⟩
  unfold bytesRead
  interval_cases r <;> omega

/-- In a buffer of just enough bytes the unpacker stays inside when the matrix fills its last word, or all but
    four bits of it. -/
theorem staysInside_iff (past : ℕ → UInt8) (csiBuf : List UInt8) {nr nc numTones : ℕ} (hnr : 1 ≤ nr ∧ nr ≤ 3)
    (hnc : 1 ≤ nc ∧ nc ≤ 3) (hnt : 1 ≤ numTones ∧ numTones ≤ 114)
    (hlen : csiBuf.length = (20 * (nr * nc * numTones) + 7) / 8) :
    StaysInside past csiBuf nr nc numTones ↔ nr * nc * numTones % 4 = 0 ∨ nr * nc * numTones % 4 = 3 := by
  have hpos : 0 < nr * nc * numTones := Nat.mul_pos (Nat.mul_pos hnr.1 hnc.1) hnt.1
  obtain ⟨t, a, ht, hcall, hreads⟩ := readCsi_reads past csiBuf nr nc numTones hnr.2 hnc.2 hnt.2
  have hinside : StaysInside past csiBuf nr nc numTones ↔ bytesRead (nr * nc * numTones) ≤ csiBuf.length := by
    constructor
    · rintro ⟨t', a', ht', -, hin⟩
      obtain ⟨rfl, -⟩ := Prod.mk.inj (Option.some.inj (ht.symm.trans ht'))
      by_contra hlt
      have := hin csiBuf.length (by rw [hreads, List.mem_range]; omega)
      omega
    · intro hle
      refine ⟨t, a, ht, hcall, fun i hi => ?_⟩
      rw [hreads, List.mem_range] at hi
      omega
  rw [hinside, hlen, bytesRead_le_iff hpos]

theorem staysInside_iff_three :
    ([0, 0, 0, 0, 0, 0, 0, 0] : List UInt8).length = (20 * (3 * 1 * 1) + 7) / 8 ∧
    (StaysInside (fun _ => 0) [0, 0, 0, 0, 0, 0, 0, 0] 3 1 1 ↔ 3 * 1 * 1 % 4 = 0 ∨ 3 * 1 * 1 % 4 = 3) :=
  ⟨by decide, staysInside_iff _ _ (by decide) (by decide) (by decide) (by decide)⟩

/-- With one entry, in three bytes, the unpacker reads a fourth one. -/
theorem not_staysInside_one :
    ([0, 0, 0] : List UInt8).length = (20 * (1 * 1 * 1) + 7) / 8 ∧ ¬ StaysInside (fun _ => 0) [0, 0, 0] 1 1 1 := by
  refine ⟨by decide, ?_⟩
  rintro ⟨t, a, ht, -, hin⟩
  obtain ⟨t', a', ht', -, hreads⟩ := readCsi_reads (fun _ => 0) [0, 0, 0] 1 1 1 (by decide) (by decide) (by decide)
  obtain ⟨rfl, -⟩ := Prod.mk.inj (Option.some.inj (ht'.symm.trans ht))
  exact absurd (hin 3 (by rw [hreads]; decide)) (by decide)

end AtherosCsi
