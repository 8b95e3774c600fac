import AtherosCsi.Theorems.Queries
import AtherosCsi.Theorems.Unpackers

/-! The buffer for the text of `csi_data`. A row takes at most 114 characters when the matrix was unpacked from
    ten-bit numbers, less than the 122 that the buffer has for it, so from one row on there is room for the
    terminating NUL. Without any row there is none. -/

namespace AtherosCsi
open Loop Sql Reservoir LittleEndian

/-! ### The bounded buffer and the unbounded one -/

theorem written_of_le {maxLen : ℕ} {text : List Char} (h : text.length + 1 ≤ maxLen) : written maxLen text = some text :=
  if_pos h

theorem le_of_written {maxLen : ℕ} {text t : List Char} (h : written maxLen text = some t) : text.length + 1 ≤ maxLen := by
  by_contra hlong
  rw [written, if_neg hlong] at h
  cases h

theorem written_eq_some {maxLen : ℕ} {text t : List Char} (h : written maxLen text = some t) : t = text := by
  unfold written at h
  split at h
  · exact (Option.some.inj h).symm
  · cases h

/-- A text only grows, so it has stayed in its buffer if it is in it in the end. -/
theorem appendRowIn_of_le (maxLen : ℕ) {id : ℤ} {st : CsiStruct} {m : CsiMatrix} {s a : ℕ} {text t : List Char}
    (h : appendRow id st m s a text = some t) :
    text.length + 1 ≤ t.length + 1 ∧ (t.length + 1 ≤ maxLen → appendRowIn maxLen id st m s a text = some t) := by
  obtain ⟨cells, hcells, h⟩ := Option.bind_eq_some_iff.mp h
  obtain rfl := Option.some.inj h
  obtain ⟨hgrow, hloop⟩ := forUp_bounded (m := fun t : List Char => t.length + 1) (b := maxLen)
    (g := fun nc x => (appendCell m a s nc.toNat x).bind (written maxLen)) (fun nc x y hxy => by
      obtain ⟨z, -, hy⟩ := Option.bind_eq_some_iff.mp hxy
      obtain rfl := Option.some.inj hy
      refine ⟨by simp only [List.length_append]; omega, fun hle => ?_⟩
      rw [hxy, Option.bind_some, written_of_le hle]) hcells
  simp only [List.length_append] at hgrow ⊢
  refine ⟨by omega, fun hle => ?_⟩
  simp only [appendRowIn, Option.bind_eq_bind]
  rw [written_of_le (by simp only [List.length_append]; omega), Option.bind_some, hloop (by omega), Option.bind_some,
    written_of_le (by simp only [List.length_append]; omega)]

theorem csiDataQueryIn_of_le {id : ℤ} {st : CsiStruct} {m : CsiMatrix} {t : List Char} (h : csiDataQuery id st m = some t)
    (hle : t.length + 1 ≤ 27 + (st.numTones.toNat * st.nr.toNat) * 122) : csiDataQueryIn id st m = some t := by
  obtain ⟨hgrow, hloop⟩ := forUp_bounded (m := fun t : List Char => t.length + 1) (fun s x y hxy =>
    forUp_bounded (fun a x y hxy => appendRowIn_of_le (27 + (st.numTones.toNat * st.nr.toNat) * 122) hxy) hxy) h
  simp only [csiDataQueryIn, Option.bind_eq_bind]
  rw [written_of_le (hgrow.trans hle), Option.bind_some, hloop hle]

/-! ### Lengths -/

theorem length_decimal_tenBits {n : ℤ} (h : -512 ≤ n ∧ n ≤ 511) : (decimal n).length ≤ 4 :=
  length_decimal_signed (k := 3) (by decide) (by omega)

theorem length_decimal_uint64 (x : UInt64) : (decimal x.toNat).length ≤ 20 := by
  have := x.toNat_lt
  exact length_decimal_le (by decide) (by omega) (by omega)

/-- The parts of the cells of an antenna and a subcarrier are numbers of ten bits. -/
def TenBitCells (m : CsiMatrix) (a s nc : ℕ) : Prop :=
  ∀ c < nc, (-512 ≤ (cellAt m a c s).real.toInt ∧ (cellAt m a c s).real.toInt ≤ 511) ∧
    (-512 ≤ (cellAt m a c s).imag.toInt ∧ (cellAt m a c s).imag.toInt ≤ 511)

/-! ### Matrices that were unpacked -/

theorem cellAt_filled {v nr nc numTones r c k : ℕ} (m : CsiMatrix) (hr : r < nr) (hc : c < nc) (hk : k < numTones)
    (hr3 : r < 3) (hc3 : c < 3) (hk114 : k < 114) :
    cellAt (filled v nr nc numTones m) r c k = csiEntry v nr nc r c k := by
  rw [cellAt, CsiMatrix.get?, dif_pos ⟨hr3, hc3, hk114⟩]
  simp only [Option.getD_some, filled, hr, hc, hk, and_self, if_true]

theorem csiEntry_tenBits (v nr nc r c k : ℕ) :
    (-512 ≤ (csiEntry v nr nc r c k).real.toInt ∧ (csiEntry v nr nc r c k).real.toInt ≤ 511) ∧
      (-512 ≤ (csiEntry v nr nc r c k).imag.toInt ∧ (csiEntry v nr nc r c k).imag.toInt ≤ 511) := by
  simp only [csiEntry, realPart, imagPart, part_toInt]
  exact ⟨twosComplement_chunk_range _ _, twosComplement_chunk_range _ _⟩

theorem tenBitCells_filled {v nr nc numTones a s : ℕ} (m : CsiMatrix) (ha : a < nr) (hs : s < numTones) (hnr : nr ≤ 3)
    (hnc : nc ≤ 3) (hnt : numTones ≤ 114) : TenBitCells (filled v nr nc numTones m) a s nc := by
  intro c hc
  rw [cellAt_filled m ha hc hs (by omega) (by omega) (by omega)]
  exact csiEntry_tenBits v nr nc a c s

/-! ### One row -/

/-- The cells of an antenna and a subcarrier, each as some call of `fill_csi_matrix` has left it. -/
def RowFilled (m : CsiMatrix) (a s nc : ℕ) : Prop :=
  ∀ c < nc, ∃ (bytes : ℕ → UInt8) (nr' nc' numTones' : UInt8) (m₀ m₁ : CsiMatrix),
    fillCsiMatrix (fun i => some (bytes i)) nr'.toNat nc'.toNat numTones'.toNat m₀ = some m₁ ∧
    a < nr'.toNat ∧ c < nc'.toNat ∧ s < numTones'.toNat ∧ m.get? a c s = m₁.get? a c s

theorem RowFilled.cell {m : CsiMatrix} {a s nc c : ℕ} (h : RowFilled m a s nc) (hc : c < nc) :
    (a < 3 ∧ c < 3 ∧ s < 114) ∧ ∃ v nr' nc', cellAt m a c s = csiEntry v nr' nc' a c s := by
  obtain ⟨bytes, nr', nc', numTones', m₀, m₁, hm, ha, hc', hs, hcell⟩ := h c hc
  have hdims := dimsFit_of_fillCsiMatrix nr'.toNat_lt nc'.toNat_lt numTones'.toNat_lt hm
  rw [fillCsiMatrix_eq nr'.toNat_lt nc'.toNat_lt numTones'.toNat_lt hdims fun i _ => rfl] at hm
  obtain rfl := Option.some.inj hm
  have hin : a < 3 ∧ c < 3 ∧ s < 114 := by unfold DimsFit at hdims; omega
  have hsame := congrArg (·.getD (⟨0, 0⟩ : Complex)) hcell
  exact ⟨hin, _, _, _, hsame.trans (cellAt_filled m₀ ha hc' hs hin.1 hin.2.1 hin.2.2)⟩

theorem RowFilled.tenBitCells {m : CsiMatrix} {a s nc : ℕ} (h : RowFilled m a s nc) : TenBitCells m a s nc := by
  intro c hc
  obtain ⟨-, v, nr', nc', hcell⟩ := h.cell hc
  rw [hcell]
  exact csiEntry_tenBits v nr' nc' a c s

theorem length_rowPiece {id : ℤ} (hid : -2 ^ 31 ≤ id ∧ id < 2 ^ 31) {st : CsiStruct} {m : CsiMatrix} {a s : ℕ}
    (hm : TenBitCells m a s st.nc.toNat) (ha : a ≤ 255) (hs : s ≤ 255) :
    (rowPiece id st m (s, a)).length ≤ 60 + 18 * st.nc.toNat := by
  have hts := length_decimal_uint64 st.tstamp
  have hidlen : (decimal id).length ≤ 11 := length_decimal_signed (k := 10) (by decide) (by omega)
  have hant : (decimal (a + 1)).length ≤ 3 := length_decimal_le (by decide) (by omega) (by omega)
  have hsub : (decimal (s + 1)).length ≤ 3 := length_decimal_le (by decide) (by omega) (by omega)
  have hzero : (decimal 0).length = 1 := by decide
  have hcells : (((List.range st.nc.toNat).flatMap fun c => [decimal (cellAt m a c s).real.toInt,
      decimal (cellAt m a c s).imag.toInt, decimal 0]).flatMap fun v => ',' :: quoted v).length ≤ st.nc.toNat * 18 := by
    rw [List.flatMap_assoc]
    refine (length_flatMap_le fun c hc => ?_).trans_eq (by rw [List.length_range])
    have hreal := length_decimal_tenBits (hm c (List.mem_range.mp hc)).1
    have himag := length_decimal_tenBits (hm c (List.mem_range.mp hc)).2
    simp only [quoted, List.flatMap_cons, List.flatMap_nil, List.length_append, List.length_cons, List.length_nil, hzero]
    omega
  have hend : ∀ p : Prop, ∀ [Decidable p], (if p then [';'] else [',']).length = 1 := fun p _ => by split <;> rfl
  simp only [rowPiece, rowText, dataTexts, defaultWord, quoted, List.flatMap_append, List.flatMap_cons, List.flatMap_nil,
    List.length_append, List.length_cons, List.length_nil, hend] at hcells ⊢
  omega

/-- The text fits its buffer as soon as there is a row, for each row has some bytes to spare. -/
theorem csiDataQueryIn_eq {id : ℤ} (hid : -2 ^ 31 ≤ id ∧ id < 2 ^ 31) {st : CsiStruct} {m : CsiMatrix}
    (hdims : DimsFit st.nr.toNat st.nc.toNat st.numTones.toNat)
    (hm : ∀ a < st.nr.toNat, ∀ s < st.numTones.toNat, TenBitCells m a s st.nc.toNat)
    (hrows : 1 ≤ st.nr.toNat ∧ 1 ≤ st.numTones.toNat) :
    ∃ t, csiDataQuery id st m = some t ∧ csiDataQueryIn id st m = some t := by
  have hquery := csiDataQuery_eq id st m hdims
  refine ⟨_, hquery, csiDataQueryIn_of_le hquery ?_⟩
  have hnr := st.nr.toNat_lt
  have hnt := st.numTones.toNat_lt
  have hnc : st.nc.toNat ≤ 3 := by
    unfold DimsFit at hdims
    omega
  have hhead : "INSERT INTO csi_data VALUES".toList.length = 27 := by decide
  have hpieces : ((positions st.nr.toNat st.numTones.toNat).flatMap (rowPiece id st m)).length ≤
      (positions st.nr.toNat st.numTones.toNat).length * 114 := by
    refine length_flatMap_le ?_
    rintro ⟨s, a⟩ hp
    obtain ⟨hs, ha⟩ := mem_positions.mp hp
    have := length_rowPiece hid (hm a ha s hs) (by omega) (by omega)
    omega
  have hpos : 1 ≤ st.numTones.toNat * st.nr.toNat := Nat.mul_pos hrows.2 hrows.1
  rw [length_positions] at hpieces
  rw [List.length_append, hhead]
  omega

/-- The text of a row takes at most 122 bytes. -/
theorem appendRow_length (id : ℤ) (hid : -2 ^ 31 ≤ id ∧ id < 2 ^ 31) (st : CsiStruct) (hnc : st.nc.toNat ≤ 3)
    (m : CsiMatrix) (a s : ℕ) (ha : a ≤ 255) (hs : s ≤ 255) (hm : RowFilled m a s st.nc.toNat) (text : List Char) :
    ∃ row, appendRow id st m s a text = some (text ++ row) ∧ row.length ≤ 122 := by
  refine ⟨_, appendRow_eq id (fun c hc => (hm.cell hc).1) text, ?_⟩
  have hlen : (rowPiece id st m (s, a)).length ≤ 60 + 18 * st.nc.toNat := length_rowPiece hid hm.tenBitCells ha hs
  omega

/-- The longest numbers of a row with one cell, all parts -512. -/
theorem appendRow_length_one : ∃ m, RowFilled m 0 0 1 ∧
    ∃ row, appendRow (-2147483648) { CsiStruct.zero with nr := 1, nc := 1, numTones := 1, tstamp := 18446744073709551615 }
      m 0 0 [] = some ([] ++ row) ∧ row.length ≤ 122 := by
  obtain ⟨m, hm⟩ : ∃ m, fillCsiMatrix (fun i => some ([0x00, 0x02, 0x08, 0x00].getD i 0)) 1 1 1 CsiMatrix.zero = some m :=
    ⟨_, fillCsiMatrix_eq (by decide) (by decide) (by decide) (by decide) (fun _ _ => rfl) CsiMatrix.zero⟩
  have hrow : RowFilled m 0 0 1 := by
    intro c hc
    obtain rfl : c = 0 := by omega
    exact ⟨_, 1, 1, 1, CsiMatrix.zero, m, hm, by decide, by decide, by decide, rfl⟩
  exact ⟨m, hrow, appendRow_length (-2147483648) (by decide)
    { CsiStruct.zero with nr := 1, nc := 1, numTones := 1, tstamp := 18446744073709551615 } (by decide) m 0 0 (by decide)
    (by decide) hrow []⟩

/-- No write of `save_csi_matrix` leaves the buffer. -/
def FitsBuffer (id : ℤ) (st : CsiStruct) (m : CsiMatrix) : Prop :=
  ∃ text, csiDataQueryIn id st m = some text ∧ csiDataQuery id st m = some text

theorem csiDataQueryIn_eq_none {id : ℤ} {st : CsiStruct} {m : CsiMatrix} (h : st.numTones.toNat * st.nr.toNat = 0) :
    csiDataQueryIn id st m = none := by
  simp only [csiDataQueryIn, h, Option.bind_eq_bind]
  rfl

/-- The text fits exactly when it has a row: for none the buffer has 27 bytes, one too few for the NUL. -/
theorem fitsBuffer_iff (id : ℤ) (hid : 0 < id ∧ id < 2 ^ 31) (st : CsiStruct) (hnr : st.nr.toNat ≤ 3) (hnc : st.nc.toNat ≤ 3)
    (hnt : st.numTones.toNat ≤ 114) (bytes : ℕ → UInt8) (m m' : CsiMatrix)
    (hm : fillCsiMatrix (fun i => some (bytes i)) st.nr.toNat st.nc.toNat st.numTones.toNat m = some m') :
    FitsBuffer id st m' ↔ 1 ≤ st.nr.toNat ∧ 1 ≤ st.numTones.toNat := by
  constructor
  · rintro ⟨text, htext, -⟩
    by_contra hnone
    have hzero : st.numTones.toNat * st.nr.toNat = 0 := by
      rcases Nat.eq_zero_or_pos st.nr.toNat with h0 | h1
      · rw [h0, Nat.mul_zero]
      · rw [show st.numTones.toNat = 0 by omega, Nat.zero_mul]
    rw [csiDataQueryIn_eq_none hzero] at htext
    cases htext
  · rintro ⟨hnr1, hnt1⟩
    rw [fillCsiMatrix_eq st.nr.toNat_lt st.nc.toNat_lt st.numTones.toNat_lt (DimsFit.of_le ⟨hnr, hnc, hnt⟩)
      fun i _ => rfl] at hm
    obtain rfl := Option.some.inj hm
    obtain ⟨text, hquery, htext⟩ := csiDataQueryIn_eq (by omega : -2 ^ 31 ≤ id ∧ id < 2 ^ 31) (DimsFit.of_le ⟨hnr, hnc, hnt⟩)
      (fun a ha s hs => tenBitCells_filled m ha hs hnr hnc hnt) ⟨hnr1, hnt1⟩
    exact ⟨text, htext, hquery⟩

theorem fitsBuffer_iff_one : ∃ m', fillCsiMatrix (fun _ => some 0xff) 1 1 1 CsiMatrix.zero = some m' ∧
    (FitsBuffer 7 { CsiStruct.zero with nr := 1, nc := 1, numTones := 1 } m' ↔ 1 ≤ 1 ∧ 1 ≤ 1) := by
  have hm : fillCsiMatrix (fun _ => some 0xff) 1 1 1 CsiMatrix.zero =
      some (filled (leVal (firstBytes (fun _ => 0xff) (bytesRead (1 * 1 * 1)))) 1 1 1 CsiMatrix.zero) :=
    fillCsiMatrix_eq (by decide) (by decide) (by decide) (by decide) (fun _ _ => rfl) CsiMatrix.zero
  exact ⟨_, hm, fitsBuffer_iff 7 (by decide) _ (by decide) (by decide) (by decide) (fun _ => 0xff) CsiMatrix.zero _ hm⟩

/-- A packet without antennas: the first `sprintf` already writes 28 bytes into a buffer of 27. -/
theorem not_fitsBuffer_zero :
    fillCsiMatrix (fun _ => some 0) 0 0 0 CsiMatrix.zero = some CsiMatrix.zero ∧ ¬ FitsBuffer 7 CsiStruct.zero CsiMatrix.zero := by
  refine ⟨rfl, ?_⟩
  rintro ⟨text, htext, -⟩
  rw [csiDataQueryIn_eq_none rfl] at htext
  cases htext

end AtherosCsi
