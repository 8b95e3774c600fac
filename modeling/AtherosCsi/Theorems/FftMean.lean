import Mathlib.Order.Bounds.Basic
import AtherosCsi.Theorems.Subcarriers

/-! `test_fft_mean` stacks samples of different length: each is cut to the shortest so far and padded with zeros to one
    common height, and in the end all are cut to the shortest. -/

namespace AtherosCsi
open MatArray Loop

section Samples
variable {α : Type}

theorem le_maxDataOf (n : ℕ) : n ≤ maxDataOf n := by
  unfold maxDataOf
  omega

/-! ### One sample -/

/-- The loop has put the first `k` of the samples `rowsOf` into `samples_data`, and the shortest of them has `m` rows. Up
    to there each slice is its sample. -/
structure Stacked (rowsOf : ℕ → List (List α)) (tones k m : ℕ) (s : FftState α) (samples : Slices α) : Prop where
  lastIndex : s.lastIndex = m
  maxData : s.maxData = some samples.height
  samplesData : s.samplesData = some samples
  le : ∀ i < k, m ≤ (rowsOf i).length
  attained : ∃ i < k, (rowsOf i).length = m
  le_height : m ≤ samples.height
  width : samples.width = tones
  length_eq : samples.slices.length = k
  slice : ∀ i < k, ∃ a, samples.slices[i]? = some a ∧ a.rows.take m = (rowsOf i).take m

variable {rowsOf : ℕ → List (List α)} {tones k : ℕ}

/-- One more sample may be the shortest. -/
theorem Stacked.least {m : ℕ} {s : FftState α} {samples : Slices α} (h : Stacked rowsOf tones k m s samples) :
    (∀ j < k + 1, min m (rowsOf k).length ≤ (rowsOf j).length) ∧
      ∃ j < k + 1, (rowsOf j).length = min m (rowsOf k).length := by
  constructor
  · intro j hj
    rcases Nat.lt_succ_iff_lt_or_eq.mp hj with hj | rfl
    · exact (Nat.min_le_left _ _).trans (h.le j hj)
    · exact Nat.min_le_right _ _
  · rcases Nat.le_total m (rowsOf k).length with hshort | hshort
    · obtain ⟨j, hj, hjm⟩ := h.attained
      exact ⟨j, Nat.lt_succ_of_lt hj, by rw [hjm, Nat.min_eq_left hshort]⟩
    · exact ⟨k, Nat.lt_succ_self k, by rw [Nat.min_eq_right hshort]⟩

/-- Slices that are their samples up to row `m` are so up to any earlier row. -/
theorem Stacked.slice_append {m m' : ℕ} {s : FftState α} {samples : Slices α} (h : Stacked rowsOf tones k m s samples)
    (hle : m' ≤ m) {b : Mat α} (hb : b.rows.take m' = (rowsOf k).take m') :
    ∀ j < k + 1, ∃ a, (samples.slices ++ [b])[j]? = some a ∧ a.rows.take m' = (rowsOf j).take m' := by
  intro j hj
  rcases Nat.lt_succ_iff_lt_or_eq.mp hj with hj | rfl
  · obtain ⟨a, ha, hsame⟩ := h.slice j hj
    have hcut := congrArg (List.take m') hsame
    rw [List.take_take, List.take_take, Nat.min_eq_left hle] at hcut
    exact ⟨a, by rw [List.getElem?_append_left (h.length_eq.symm ▸ hj), ha], hcut⟩
  · exact ⟨b, by rw [← h.length_eq, List.getElem?_concat_length], hb⟩

variable [Zero α] {csi : Mat α} {readLogFile : List Char → Option (Trace α)} {testDirPrefix : List Char} {rx tx : ℕ}

/-- The trace of a file as a packets by tones matrix. -/
def sampleOf (readLogFile : List Char → Option (Trace α)) (testDirPrefix : List Char) (rx tx i : ℕ) : Option (Mat α) := do
  let atherosCsi ← readLogFile (sampleFile testDirPrefix i)
  (← subcarrierPertime atherosCsi).lines? rx tx

/-- One round of the loop, which cuts its sample to `cut` rows and pads it to `height`. -/
theorem fftStep_eq {i cut height : ℕ} {s : FftState α} {samples : Slices α}
    (hread : sampleOf readLogFile testDirPrefix rx tx i = some csi)
    (hindex : (if s.lastIndex = -1 ∨ s.lastIndex > csi.rows.length then (csi.rows.length : ℤ) else s.lastIndex) = cut)
    (hmax : (if (s.lastIndex = -1 ∨ s.lastIndex > csi.rows.length) ∧ s.lastIndex = -1 then
      some (maxDataOf csi.rows.length) else s.maxData) = some height)
    (hcut : cut ≤ csi.rows.length)
    (hpush : Slices.push? s.samplesData ((csi.takeRows cut).padRows height) = some samples) :
    fftStep readLogFile testDirPrefix rx tx s i = some ⟨cut, some height, some samples⟩ := by
  obtain ⟨atherosCsi, hlog, hrest⟩ := Option.bind_eq_some_iff.mp hread
  obtain ⟨subcarriers, hsub, hlines⟩ := Option.bind_eq_some_iff.mp hrest
  have htake : csi.takeRows? cut = some (csi.takeRows cut) := if_pos hcut
  simp only [fftStep, hlog, hsub, hlines, Option.bind_eq_bind, Option.bind_some]
  rw [hindex, hmax, Int.toNat_natCast, htake, Option.bind_some, Option.bind_some, hpush]
  rfl

theorem fftStep_first {i : ℕ} (hread : sampleOf readLogFile testDirPrefix rx tx i = some csi)
    (hrows : csi.rows = rowsOf 0) (hcols : csi.cols = tones) :
    ∃ s samples, fftStep readLogFile testDirPrefix rx tx ⟨-1, none, none⟩ i = some s ∧
      Stacked rowsOf tones 1 (rowsOf 0).length s samples := by
  obtain ⟨hheight, htop⟩ := Mat.takeRows_padRows (Nat.le_refl csi.rows.length) (le_maxDataOf csi.rows.length)
  obtain ⟨samples, hpush, hsize, hwidth, hslices⟩ :=
    Slices.push?_none ((csi.takeRows csi.rows.length).padRows (maxDataOf csi.rows.length))
  have hstep := fftStep_eq (s := ⟨-1, none, none⟩) hread (by simp) (by simp) (Nat.le_refl _) hpush
  have hmax : samples.height = maxDataOf csi.rows.length := hsize.trans hheight
  refine ⟨_, samples, hstep, ⟨by rw [hrows], by rw [hmax], rfl, ?_, ⟨0, Nat.one_pos, rfl⟩, ?_, hwidth.trans hcols,
    by rw [hslices, List.length_singleton], ?_⟩⟩
  · intro j hj
    rw [Nat.lt_one_iff.mp hj]
  · rw [hmax, ← hrows]
    exact le_maxDataOf _
  · intro j hj
    rw [Nat.lt_one_iff.mp hj, ← hrows, hslices]
    exact ⟨_, rfl, htop⟩

theorem fftStep_next {i m : ℕ} {s : FftState α} {samples : Slices α} (h : Stacked rowsOf tones k m s samples)
    (hread : sampleOf readLogFile testDirPrefix rx tx i = some csi) (hrows : csi.rows = rowsOf k)
    (hcols : csi.cols = tones) (htones : tones ≠ 1) :
    ∃ s' samples', fftStep readLogFile testDirPrefix rx tx s i = some s' ∧
      Stacked rowsOf tones (k + 1) (min m (rowsOf k).length) s' samples' := by
  obtain ⟨hleast, hattained⟩ := h.least
  have hle : min m (rowsOf k).length ≤ m := Nat.min_le_left _ _
  have hlen : min m (rowsOf k).length ≤ csi.rows.length := by
    rw [hrows]
    exact Nat.min_le_right _ _
  have hnot : s.lastIndex ≠ -1 := by
    rw [h.lastIndex]
    omega
  have hindex : (if s.lastIndex = -1 ∨ s.lastIndex > csi.rows.length then (csi.rows.length : ℤ) else s.lastIndex) =
      (min m (rowsOf k).length : ℕ) := by
    rw [h.lastIndex, hrows]
    split <;> omega
  obtain ⟨hheight, htop⟩ := Mat.takeRows_padRows hlen (hle.trans h.le_height)
  obtain ⟨samples', hpush, hheight', hwidth', hslices⟩ := Slices.push?_some (s := samples)
    (a := (csi.takeRows (min m (rowsOf k).length)).padRows samples.height) ⟨hheight, hcols.trans h.width.symm⟩ (hcols ▸ htones)
  rw [← h.samplesData] at hpush
  have hstep := fftStep_eq hread hindex (by rw [if_neg fun hnew => hnot hnew.2, h.maxData]) hlen hpush
  exact ⟨_, samples', hstep, {
    lastIndex := rfl
    maxData := by rw [hheight']
    samplesData := rfl
    le := hleast
    attained := hattained
    le_height := hheight' ▸ hle.trans h.le_height
    width := hwidth'.trans h.width
    length_eq := by rw [hslices, List.length_append, h.length_eq, List.length_singleton]
    slice := hslices ▸ h.slice_append hle (htop.trans (by rw [hrows])) }⟩

/-! ### All samples -/

theorem fft_loop {n : ℕ} (hn : 1 ≤ n) (htones : tones ≠ 1) (hsample : ∀ i < n,
      ∃ a, sampleOf readLogFile testDirPrefix rx tx (i + 1) = some a ∧ a.cols = tones ∧ a.rows = rowsOf i) :
    ∃ s m samples, (List.range' 1 n).foldlM (fftStep readLogFile testDirPrefix rx tx) ⟨-1, none, none⟩ = some s ∧
      Stacked rowsOf tones n m s samples := by
  let P : List ℕ → FftState α → Prop := fun pre s =>
    (pre = [] ∧ s = ⟨-1, none, none⟩) ∨ ∃ m samples, Stacked rowsOf tones pre.length m s samples
  have hstep : ∀ pre i s, pre ++ [i] <+: List.range' 1 n → P pre s →
      ∃ s', fftStep readLogFile testDirPrefix rx tx s i = some s' ∧ P (pre ++ [i]) s' := by
    rintro pre i s ⟨post, hpost⟩ hP
    have hget : (List.range' 1 n)[pre.length]? = some i := by simp [← hpost]
    obtain ⟨hlt, rfl⟩ : pre.length < n ∧ pre.length + 1 = i := by
      have hlt : pre.length < n := by simpa using (List.getElem?_eq_some_iff.mp hget).1
      rw [List.getElem?_range' hlt] at hget
      have := Option.some.inj hget
      omega
    obtain ⟨a, ha, hcols, hrows⟩ := hsample _ hlt
    rcases hP with ⟨rfl, rfl⟩ | ⟨m, samples, hstacked⟩
    · obtain ⟨s', samples, hs', hnext⟩ := fftStep_first ha hrows hcols
      exact ⟨s', hs', Or.inr ⟨_, samples, hnext⟩⟩
    · obtain ⟨s', samples', hs', hnext⟩ := fftStep_next hstacked ha hrows hcols htones
      refine ⟨s', hs', Or.inr ?_⟩
      rw [List.length_append, List.length_singleton]
      exact ⟨_, samples', hnext⟩
  obtain ⟨s, hs, hP⟩ := foldlM_rule (P := P) (Or.inl ⟨rfl, rfl⟩) hstep
  rcases hP with ⟨hnil, -⟩ | ⟨m, samples, hstacked⟩
  · rw [List.range'_eq_nil_iff] at hnil
    omega
  · rw [List.length_range'] at hstacked
    exact ⟨s, m, samples, hs, hstacked⟩

/-- What the script returns has as many rows as the shortest sample, and slice `i` is the beginning of sample `i`. -/
theorem testFftMean_cut (readLogFile : List Char → Option (Trace α)) (testDirPrefix : List Char) (numTraces : ℕ)
    (hnum : 1 ≤ numTraces) (traces : ℕ → Trace α)
    (hread : ∀ i < numTraces, readLogFile (sampleFile testDirPrefix (i + 1)) = some (traces i))
    (hkept : ∀ i < numTraces, kept (traces i) ≠ []) (tones : ℕ) (htwo : 2 ≤ tones)
    (htones : ∀ i < numTraces, ∀ e ∈ kept (traces i), (csiDataOf e).pages = tones) (rx tx : ℕ)
    (hrx : 1 ≤ rx ∧ rx ≤ 3) (htx : 1 ≤ tx ∧ tx ≤ 3) :
    ∃ m x, IsLeast {n | ∃ i < numTraces, (toneRows (traces i) rx tx).length = n} m ∧
      testFftMean readLogFile testDirPrefix numTraces rx tx = some x ∧
      x.height = m ∧ x.width = tones ∧ x.slices.length = numTraces ∧
      ∀ i < numTraces, ∃ a, x.slices[i]? = some a ∧ a.rows = (toneRows (traces i) rx tx).take m := by
  have hsample : ∀ i < numTraces, ∃ a, sampleOf readLogFile testDirPrefix rx tx (i + 1) = some a ∧ a.cols = tones ∧
      a.rows = toneRows (traces i) rx tx := by
    intro i hi
    obtain ⟨s, hs⟩ := exists_subcarrierPertime (hkept i hi)
    obtain ⟨e, he⟩ := List.exists_mem_of_ne_nil _ (hkept i hi)
    have hpages : s.pages = tones := (pages_of_mem_kept hs he).symm.trans (htones i hi e he)
    obtain ⟨a, ha, hcols, hrows⟩ := lines?_subcarrierPertime hs hrx htx (hpages.symm ▸ htwo)
    exact ⟨a, by simp only [sampleOf, hread i hi, hs, ha, Option.bind_eq_bind, Option.bind_some], hcols.trans hpages, hrows⟩
  obtain ⟨s, m, samples, hs, h⟩ := fft_loop hnum (by omega) hsample
  obtain ⟨x, hx, hheight, hwidth, hslices⟩ := Slices.takeRows?_of_le h.le_height
  refine ⟨m, x, ⟨h.attained, ?_⟩, ?_, hheight, hwidth.trans h.width, by rw [hslices, List.length_map, h.length_eq], ?_⟩
  · rintro n ⟨i, hi, rfl⟩
    exact h.le i hi
  · rw [testFftMean, hs]
    simp only [Option.bind_eq_bind, Option.bind_some, h.samplesData, h.lastIndex, Int.toNat_natCast, hx]
  · intro i hi
    obtain ⟨a, ha, hsame⟩ := h.slice i hi
    exact ⟨a.takeRows m, by rw [hslices, List.getElem?_map, ha, Option.map_some], hsame⟩

end Samples

/-- Samples of three, one and two packets. -/
theorem testFftMean_cut_three :
    let entry : ℤ → LogEntry (Array3 ℤ) := fun x => ⟨⟨some 0, some 45, some 2437, some 0, some 0, some 139, some 0, some 2,
      some 3, some 3, some 40, some 38, some 36, some 35, some 0⟩, .array ⟨3, 3, 2, fun _ _ k => x + k⟩, .zero⟩
    let traces : ℕ → Trace ℤ := fun i => if i = 0 then [entry 1, entry 2, entry 3] else if i = 1 then [entry 4] else [entry 5, entry 6]
    let readLogFile : List Char → Option (Trace ℤ) := fun path =>
      if path = "walk_1".toList then some (traces 0) else if path = "walk_2".toList then some (traces 1) else some (traces 2)
    ∃ m x, IsLeast {n | ∃ i < 3, (toneRows (traces i) 2 1).length = n} m ∧
      testFftMean readLogFile "walk".toList 3 2 1 = some x ∧ x.height = m ∧ x.width = 2 ∧ x.slices.length = 3 ∧
      ∀ i < 3, ∃ a, x.slices[i]? = some a ∧ a.rows = (toneRows (traces i) 2 1).take m := by
  intro entry traces readLogFile
  have hthree : ∀ {p : ℕ → Prop}, p 0 → p 1 → p 2 → ∀ i < 3, p i := fun h0 h1 h2 i hi => by
    match i, hi with
    | 0, _ => exact h0
    | 1, _ => exact h1
    | 2, _ => exact h2
  have hfile : ∀ i < 3, readLogFile (sampleFile "walk".toList (i + 1)) = some (traces i) := hthree rfl rfl rfl
  have hkept : ∀ i < 3, kept (traces i) = traces i := hthree rfl rfl rfl
  have hne : ∀ i < 3, traces i ≠ [] := hthree (List.cons_ne_nil _ _) (List.cons_ne_nil _ _) (List.cons_ne_nil _ _)
  have hpages : ∀ i < 3, ∀ e ∈ traces i, (csiDataOf e).pages = 2 :=
    hthree (by simp [traces, entry, csiDataOf]) (by simp [traces, entry, csiDataOf]) (by simp [traces, entry, csiDataOf])
  exact testFftMean_cut readLogFile "walk".toList 3 (by decide) traces hfile (fun i hi => (hkept i hi).trans_ne (hne i hi)) 2
    (by decide) (fun i hi e he => hpages i hi e (hkept i hi ▸ he)) 2 1 (by decide) (by decide)

end AtherosCsi
