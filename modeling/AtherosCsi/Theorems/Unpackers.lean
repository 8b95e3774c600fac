import AtherosCsi.ReadCsi
import AtherosCsi.Theorems.Unpack

/-! Both unpackers store the parts of the CSI that their bytes form: `fill_csi_matrix` in a fixed matrix,
    which keeps all other cells, `read_csi.c` in column-major arrays. So they agree entry by entry. -/

namespace AtherosCsi
open Loop LittleEndian Reservoir

/-! ### Entry numbers -/

theorem entry_inj {nc nr k c r k' c' r' : ℕ} (hr : r < nr) (hr' : r' < nr) (hc : c < nc) (hc' : c' < nc)
    (h : (k * nc + c) * nr + r = (k' * nc + c') * nr + r') : k = k' ∧ c = c' ∧ r = r' := by
  have hrow : k * nc + c = k' * nc + c' := by
    have := congrArg (· / nr) h
    simpa [Nat.add_div_of_dvd_right, Nat.mul_add_div, Nat.div_eq_of_lt, hr, hr', Nat.mul_comm _ nr,
      (show 0 < nr by omega)] using this
  have hk : k = k' := by
    have := congrArg (· / nc) hrow
    simpa [Nat.mul_add_div, Nat.div_eq_of_lt, hc, hc', Nat.mul_comm _ nc, (show 0 < nc by omega)] using this
  subst hk
  obtain rfl : c = c' := by omega
  exact ⟨rfl, rfl, by omega⟩

/-! ### The fixed matrix -/

def csiEntry (v nr nc r c k : ℕ) : Complex :=
  ⟨realPart v ((k * nc + c) * nr + r), imagPart v ((k * nc + c) * nr + r)⟩

theorem modify?_eq {r c k : ℕ} (m : CsiMatrix) (f : Complex → Complex) (hr : r < 3) (hc : c < 3) (hk : k < 114) :
    m.modify? r c k f =
      some ⟨fun i j l => if (i : ℕ) = r ∧ (j : ℕ) = c ∧ (l : ℕ) = k then f (m.cell i j l) else m.cell i j l⟩ :=
  if_pos ⟨hr, hc, hk⟩

def storedTo (v nr nc e : ℕ) (m : CsiMatrix) : CsiMatrix where
  cell i j l :=
    if (i : ℕ) < nr ∧ (j : ℕ) < nc ∧ ((l : ℕ) * nc + j) * nr + i < e then csiEntry v nr nc i j l else m.cell i j l

theorem storedTo_succ {v nr nc r c k : ℕ} (m : CsiMatrix) (hr : r < nr) (hc : c < nc) (hr3 : r < 3) (hc3 : c < 3)
    (hk : k < 114) :
    ∃ t, (storedTo v nr nc ((k * nc + c) * nr + r) m).modify? r c k
        (fun z => { z with imag := imagPart v ((k * nc + c) * nr + r) }) = some t ∧
      t.modify? r c k (fun z => { z with real := realPart v ((k * nc + c) * nr + r) }) =
        some (storedTo v nr nc ((k * nc + c) * nr + r + 1) m) := by
  refine ⟨_, modify?_eq _ _ hr3 hc3 hk, ?_⟩
  rw [modify?_eq _ _ hr3 hc3 hk]
  congr 1
  ext1
  funext i j l
  by_cases hcell : (i : ℕ) = r ∧ (j : ℕ) = c ∧ (l : ℕ) = k
  · obtain ⟨hi, hj, hl⟩ := hcell
    simp only [hi, hj, hl, and_self, if_true, storedTo, hr, hc, true_and, Nat.lt_succ_self, csiEntry]
  · -- Another cell of the matrix belongs to another entry.
    simp only [hcell, if_false, storedTo]
    by_cases hin : (i : ℕ) < nr ∧ (j : ℕ) < nc
    · have hne : ((l : ℕ) * nc + j) * nr + i ≠ (k * nc + c) * nr + r := fun heq => by
        obtain ⟨hl, hj, hi⟩ := entry_inj hin.1 hr hin.2 hc heq
        exact hcell ⟨hi, hj, hl⟩
      have hlt : ((l : ℕ) * nc + j) * nr + i < (k * nc + c) * nr + r + 1 ↔
          ((l : ℕ) * nc + j) * nr + i < (k * nc + c) * nr + r := by omega
      simp only [hlt]
    · have hout : ∀ e : ℕ, ¬ ((i : ℕ) < nr ∧ (j : ℕ) < nc ∧ ((l : ℕ) * nc + j) * nr + i < e) :=
        fun e h => hin ⟨h.1, h.2.1⟩
      simp only [hout, if_false]

/-- The matrix that holds the CSI `v` in its first cells and is `m` elsewhere. -/
def filled (v nr nc numTones : ℕ) (m : CsiMatrix) : CsiMatrix where
  cell i j l := if (i : ℕ) < nr ∧ (j : ℕ) < nc ∧ (l : ℕ) < numTones then csiEntry v nr nc i j l else m.cell i j l

theorem storedTo_all (v nr nc numTones : ℕ) (m : CsiMatrix) :
    storedTo v nr nc (numTones * nc * nr) m = filled v nr nc numTones m := by
  ext1
  funext i j l
  by_cases hin : (i : ℕ) < nr ∧ (j : ℕ) < nc
  · simp only [storedTo, filled, hin, true_and, entry_lt_iff hin.1 hin.2]
  · have hout : ∀ q : Prop, ¬ ((i : ℕ) < nr ∧ (j : ℕ) < nc ∧ q) := fun q h => hin ⟨h.1, h.2.1⟩
    simp only [storedTo, filled, hout, if_false]

/-- `fill_csi_matrix` reads `bytesRead` bytes and stores the CSI that they form. -/
theorem fillCsiMatrixTraced_eq {mem : ℕ → Option UInt8} {b : ℕ → UInt8} {nr nc numTones : ℕ} (hnr : nr < 256)
    (hnc : nc < 256) (hnt : numTones < 256) (hdims : DimsFit nr nc numTones)
    (hmem : ∀ i < bytesRead (numTones * nc * nr), mem i = some (b i)) (m : CsiMatrix) :
    ∃ t, fillCsiMatrixTraced mem nr nc numTones m =
        some (t, filled (leVal (firstBytes b (bytesRead (numTones * nc * nr)))) nr nc numTones m) ∧
      t.reads = List.range (bytesRead (numTones * nc * nr)) ∧ ∀ s ∈ t.snapshots, s.Exact b := by
  have hN := hdims.entries_le
  have hm : bytesRead (numTones * nc * nr) < 2 ^ 32 := by unfold bytesRead; omega
  have hstored : ∃ t m', fillCsiMatrixTraced mem nr nc numTones m = some (t, m') ∧
      m' = storedTo (leVal (firstBytes b (bytesRead (numTones * nc * nr)))) nr nc (numTones * nc * nr) m ∧
      t.reads = List.range (bytesRead (numTones * nc * nr)) ∧ ∀ s ∈ t.snapshots, s.Exact b := by
    refine unpackTraced_rule false (fun e t => t = storedTo _ nr nc e m) (Nat.le_refl 8) hnr hnc hnt rfl hm hmem ?_ ?_
    · ext1
      funext i j l
      simp [storedTo]
    · rintro k c r hk hc hr s rfl
      rcases hdims with rfl | rfl | rfl | ⟨hnr', hnc', hnt'⟩
      · omega
      · omega
      · omega
      · obtain ⟨t, himag, hreal⟩ :=
          storedTo_succ m hr hc (hr.trans_le hnr') (hc.trans_le hnc') (hk.trans_le hnt')
        exact ⟨t, _, himag, hreal, rfl⟩
  obtain ⟨t, m', ht, rfl, htrace⟩ := hstored
  rw [storedTo_all] at ht
  exact ⟨t, ht, htrace⟩

theorem fillCsiMatrix_eq {mem : ℕ → Option UInt8} {b : ℕ → UInt8} {nr nc numTones : ℕ} (hnr : nr < 256)
    (hnc : nc < 256) (hnt : numTones < 256) (hdims : DimsFit nr nc numTones)
    (hmem : ∀ i < bytesRead (numTones * nc * nr), mem i = some (b i)) (m : CsiMatrix) :
    fillCsiMatrix mem nr nc numTones m =
      some (filled (leVal (firstBytes b (bytesRead (numTones * nc * nr)))) nr nc numTones m) := by
  obtain ⟨t, ht, -⟩ := fillCsiMatrixTraced_eq hnr hnc hnt hdims hmem m
  rw [← map_fillCsiMatrixTraced, ht]
  rfl

theorem dimsFit_of_fillCsiMatrix {mem : ℕ → Option UInt8} {nr nc numTones : ℕ} (hnr : nr < 256) (hnc : nc < 256)
    (hnt : numTones < 256) {m m' : CsiMatrix} (h : fillCsiMatrix mem nr nc numTones m = some m') :
    DimsFit nr nc numTones := by
  by_contra hdims
  simp only [DimsFit, not_or] at hdims
  obtain ⟨hnr0, hnc0, hnt0, hbig⟩ := hdims
  obtain ⟨_, -, h⟩ := Option.bind_eq_some_iff.mp h
  obtain ⟨_, h, -⟩ := Option.bind_eq_some_iff.mp h
  -- The last round of each loop ran, and it stored the entry with the largest indices.
  obtain ⟨_, _, h⟩ := forUp_ran_last hnt h hnt0
  obtain ⟨_, _, h⟩ := forUp_ran_last hnc h hnc0
  obtain ⟨_, _, h⟩ := forUp_ran_last hnr h hnr0
  obtain ⟨_, -, h⟩ := Option.bind_eq_some_iff.mp h
  obtain ⟨_, h, -⟩ := Option.bind_eq_some_iff.mp h
  rw [toNat_counter (by omega), toNat_counter (by omega), toNat_counter (by omega)] at h
  simp only [CsiMatrix.modify?] at h
  split at h
  · exact hbig (by omega)
  · cases h

/-! ### The column-major arrays -/

structure PutTo (v N e : ℕ) (s : MexState) : Prop where
  ptrR : s.ptrR = e
  ptrI : s.ptrI = e
  lengthR : s.pr.length = N
  lengthI : s.pi.length = N
  real : ∀ i < e, s.pr[i]? = some (realPart v i).toInt
  imag : ∀ i < e, s.pi[i]? = some (imagPart v i).toInt

theorem PutTo.succ {v N e : ℕ} {s : MexState} (h : PutTo v N e s) (he : e < N) :
    ∃ t u, s.putImag (imagPart v e) = some t ∧ t.putReal (realPart v e) = some u ∧ PutTo v N (e + 1) u := by
  have hI : s.ptrI < s.pi.length := by rw [h.ptrI, h.lengthI]; exact he
  have hR : s.ptrR < s.pr.length := by rw [h.ptrR, h.lengthR]; exact he
  have put : ∀ {l : List ℤ} {f : ℕ → ℤ}, l.length = N → (∀ i < e, l[i]? = some (f i)) →
      ∀ i < e + 1, (l.set e (f e))[i]? = some (f i) := by
    intro l f hl hf i hi
    by_cases hie : i = e
    · subst hie
      simp [hl, he]
    · rw [List.getElem?_set_ne (fun h => hie h.symm)]
      exact hf i (by omega)
  refine ⟨_, _, if_pos hI, if_pos hR, ?_⟩
  refine ⟨by simp [h.ptrR], by simp [h.ptrI], by simp [h.lengthR], by simp [h.lengthI], ?_, ?_⟩
  · simp only [h.ptrR]
    exact put h.lengthR h.real
  · simp only [h.ptrI]
    exact put h.lengthI h.imag

theorem PutTo.arrays {v N : ℕ} {s : MexState} (h : PutTo v N N s) :
    s.pr = (List.range N).map (fun e => (realPart v e).toInt) ∧
      s.pi = (List.range N).map fun e => (imagPart v e).toInt := by
  have all : ∀ {l : List ℤ} {f : ℕ → ℤ}, l.length = N → (∀ e < N, l[e]? = some (f e)) → l = (List.range N).map f := by
    intro l f hl hf
    apply List.ext_getElem
    · simp [hl]
    · intro e h₁ h₂
      have := hf e (hl ▸ h₁)
      rw [List.getElem?_eq_getElem h₁, Option.some.injEq] at this
      simp [this]
  exact ⟨all h.lengthR h.real, all h.lengthI h.imag⟩

/-- `mexFunction` reads `bytesRead` bytes and returns the CSI that they form. -/
theorem mexFunctionTraced_eq {mem : ℕ → Option UInt8} {b : ℕ → UInt8} {nr nc numTones : ℕ} (hnr : nr ≤ 3) (hnc : nc ≤ 3)
    (hnt : numTones ≤ 114) (hmem : ∀ i < bytesRead (numTones * nc * nr), mem i = some (b i)) :
    ∃ (t : Traced 32) (s : MexState), mexFunctionTraced mem nr nc numTones = some (t, ⟨nr, nc, numTones, s.pr, s.pi⟩) ∧
      PutTo (leVal (firstBytes b (bytesRead (numTones * nc * nr)))) (numTones * nc * nr) (numTones * nc * nr) s ∧
      t.reads = List.range (bytesRead (numTones * nc * nr)) ∧ ∀ s ∈ t.snapshots, s.Exact b := by
  have hN : numTones * nc * nr ≤ 114 * 3 * 3 := Nat.mul_le_mul (Nat.mul_le_mul hnt hnc) hnr
  have hm : bytesRead (numTones * nc * nr) < 2 ^ 32 := by unfold bytesRead; omega
  have hsize : nr * nc * numTones = numTones * nc * nr := by ring
  have hput : ∃ t s, unpackTraced 32 true mem nr nc numTones (fun _ _ _ imag s => MexState.putImag s imag)
      (fun _ _ _ real s => MexState.putReal s real)
      ⟨List.replicate (nr * nc * numTones) 0, List.replicate (nr * nc * numTones) 0, 0, 0⟩ = some (t, s) ∧
      PutTo (leVal (firstBytes b (bytesRead (numTones * nc * nr)))) (numTones * nc * nr) (numTones * nc * nr) s ∧
      t.reads = List.range (bytesRead (numTones * nc * nr)) ∧ ∀ s ∈ t.snapshots, s.Exact b := by
    refine unpackTraced_rule true (PutTo _ _) (by decide) (by omega) (by omega) (by omega) rfl hm hmem ?_ ?_
    · exact ⟨rfl, rfl, by simp [hsize], by simp [hsize], fun i hi => absurd hi (by omega),
        fun i hi => absurd hi (by omega)⟩
    · intro k c r hk hc hr s hs
      exact hs.succ ((entry_lt_iff hr hc).mpr hk)
  obtain ⟨t, s, hs, hP, htrace⟩ := hput
  refine ⟨t, s, ?_, hP, htrace⟩
  simp only [mexFunctionTraced, hs, Option.bind_eq_bind, Option.bind_some]
  rfl

theorem mexFunction_eq {mem : ℕ → Option UInt8} {b : ℕ → UInt8} {nr nc numTones : ℕ} (hnr : nr ≤ 3) (hnc : nc ≤ 3)
    (hnt : numTones ≤ 114) (hmem : ∀ i < bytesRead (numTones * nc * nr), mem i = some (b i)) :
    ∃ s : MexState, mexFunction mem nr nc numTones = some ⟨nr, nc, numTones, s.pr, s.pi⟩ ∧
      PutTo (leVal (firstBytes b (bytesRead (numTones * nc * nr)))) (numTones * nc * nr) (numTones * nc * nr) s := by
  obtain ⟨t, s, hs, hP, -⟩ := mexFunctionTraced_eq hnr hnc hnt hmem
  exact ⟨s, by rw [← map_mexFunctionTraced, hs]; rfl, hP⟩

/-! ### Agreement -/

def MxArray.Matches (a : MxArray) (m : CsiMatrix) (nr nc numTones : ℕ) : Prop :=
  a.nr = nr ∧ a.nc = nc ∧ a.numTones = numTones ∧
    ∀ (r c : Fin 3) (k : Fin 114), (r : ℕ) < nr → (c : ℕ) < nc → (k : ℕ) < numTones →
      a.pr[a.index r c k]? = some (m.cell r c k).real.toInt ∧ a.pi[a.index r c k]? = some (m.cell r c k).imag.toInt

/-- On the same bytes, `read_csi.c` returns what `fill_csi_matrix` stores. -/
theorem mexFunction_matches_fillCsiMatrix (bytes : List UInt8) {nr nc numTones : ℕ} (hnr : nr ≤ 3) (hnc : nc ≤ 3)
    (hnt : numTones ≤ 114) (henough : bytesRead (numTones * nc * nr) ≤ bytes.length) (m : CsiMatrix) :
    ∃ m' a, fillCsiMatrix (fun i => bytes[i]?) nr nc numTones m = some m' ∧
      mexFunction (fun i => bytes[i]?) nr nc numTones = some a ∧ a.Matches m' nr nc numTones := by
  have hmem : ∀ i < bytesRead (numTones * nc * nr), bytes[i]? = some (bytes[i]?.getD 0) := by
    intro i hi
    rw [List.getElem?_eq_getElem (by omega)]
    rfl
  have hfill := fillCsiMatrix_eq (by omega) (by omega) (by omega) (DimsFit.of_le ⟨hnr, hnc, hnt⟩) hmem m
  obtain ⟨s, hmex, hput⟩ := mexFunction_eq hnr hnc hnt hmem
  refine ⟨_, _, hfill, hmex, rfl, rfl, rfl, fun r c k hr hc hk => ?_⟩
  have hindex : MxArray.index ⟨nr, nc, numTones, s.pr, s.pi⟩ r c k = ((k : ℕ) * nc + c) * nr + r := by
    simp only [MxArray.index]
    ring
  have hlt := (entry_lt_iff hr hc).mpr hk
  rw [hindex, hput.real _ hlt, hput.imag _ hlt]
  simp only [filled, hr, hc, hk, and_self, if_true, csiEntry]

theorem mexFunction_matches_fillCsiMatrix_one : bytesRead (1 * 1 * 1) ≤ [0xff, 0x03, 0x80, 0x00].length ∧
    ∃ m' a, fillCsiMatrix (fun i => [0xff, 0x03, 0x80, 0x00][i]?) 1 1 1 ⟨fun _ _ _ => ⟨0, 0⟩⟩ = some m' ∧
      mexFunction (fun i => [0xff, 0x03, 0x80, 0x00][i]?) 1 1 1 = some a ∧ a.Matches m' 1 1 1 :=
  ⟨by decide, mexFunction_matches_fillCsiMatrix _ (by decide) (by decide) (by decide) (by decide) _⟩

end AtherosCsi
