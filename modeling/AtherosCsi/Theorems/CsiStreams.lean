import AtherosCsi.Scripts

/-! `get_all_csi_streams` names its groups by the first two dimensions of the CSI and puts each new packet on top of the
    matrix of its group. The number of tones does not enter the name, so a group whose packets differ in it ends
    the script with an error. -/

namespace AtherosCsi
open MatArray Loop Scanf

/-! ### Names of fields -/

theorem strcat_append (a : List Char) (texts : List (List Char)) :
    strcat (a :: texts) = a.rdropWhile isSpace ++ strcat texts := rfl

theorem rdropWhile_num2str (n : ℕ) : (num2str n).rdropWhile isSpace = num2str n := by
  rw [List.rdropWhile_eq_self_iff]
  intro hne hspace
  have hdigit := Nat.isDigit_of_mem_toDigits (by decide) (by decide) (List.getLast_mem hne)
  simp only [isSpace, Bool.or_eq_true, decide_eq_true_eq] at hspace
  rcases hspace with ((((h | h) | h) | h) | h) | h <;> exact absurd (h ▸ hdigit) (by decide)

theorem fieldName_eq (m n : ℕ) : fieldName m n = 'a' :: (num2str m ++ num2str n) := by
  rw [fieldName, strcat_append, strcat_append, strcat_append, rdropWhile_num2str, rdropWhile_num2str]
  simp [strcat, isSpace, List.rdropWhile_singleton]

theorem num2str_inj {m n : ℕ} (h : num2str m = num2str n) : m = n := by
  have := congrArg (Nat.ofDigitChars 10 · 0) h
  simpa [num2str, Nat.ofDigitChars_ten_toDigits] using this

/-- Names of small groups are told apart, also from those of large ones. -/
theorem fieldName_inj {m n m' n' : ℕ} (hm : m' < 10) (hn : n' < 10) (h : fieldName m n = fieldName m' n') :
    m = m' ∧ n = n' := by
  have hsmall : ∀ {k : ℕ}, k < 10 → (num2str k).length = 1 := fun {k} hk => by
    rw [num2str, Nat.toDigits_of_lt_base hk]
    rfl
  have hpos : ∀ k : ℕ, 0 < (num2str k).length := fun k => List.length_pos_iff.mpr Nat.toDigits_ne_nil
  rw [fieldName_eq, fieldName_eq, List.cons.injEq] at h
  have hlen := congrArg List.length h.2
  rw [List.length_append, List.length_append, hsmall hm, hsmall hn] at hlen
  have hm1 := hpos m
  have hn1 := hpos n
  obtain ⟨hfst, hsnd⟩ := List.append_inj h.2 (by rw [hsmall hm]; omega)
  exact ⟨num2str_inj hfst, num2str_inj hsnd⟩

section Streams
variable {α : Type} [Zero α]

/-! ### Groups -/

/-- The CSI of a record, as `read_log_file` reads it from a packet of the device. -/
def Measured (e : LogEntry (Array3 α)) : Prop :=
  ∀ a, e.csi = .array a → (1 ≤ a.rows ∧ a.rows ≤ 3) ∧ (1 ≤ a.cols ∧ a.cols ≤ 3) ∧ 1 ≤ a.pages ∧ a.pages ≤ 114

theorem Measured.dims {e : LogEntry (Array3 α)} (h : Measured e) :
    (1 ≤ (csiDataOf e).rows ∧ (csiDataOf e).rows ≤ 3) ∧ 1 ≤ (csiDataOf e).cols ∧ (csiDataOf e).cols ≤ 3 := by
  unfold csiDataOf
  split
  · simp [Array3.scalar]
  · rename_i a ha
    exact ⟨(h a ha).1, (h a ha).2.1⟩

def InGroup (m n : ℕ) (e : LogEntry (Array3 α)) : Prop := (csiDataOf e).rows = m ∧ (csiDataOf e).cols = n

instance (m n : ℕ) (e : LogEntry (Array3 α)) : Decidable (InGroup m n e) := inferInstanceAs (Decidable (_ ∧ _))

/-- The records with `m` receiving and `n` sending antennas, in order. -/
def group (csi : Trace α) (m n : ℕ) : Trace α := csi.filter (InGroup m n ·)

def vectorOf (e : LogEntry (Array3 α)) : List α := (csiDataOf e).vector

theorem length_vectorOf_iff {e e' : LogEntry (Array3 α)} (he : Measured e) {m n : ℕ} (hg : InGroup m n e)
    (hg' : InGroup m n e') : (vectorOf e).length = (vectorOf e').length ↔ (csiDataOf e).pages = (csiDataOf e').pages := by
  obtain ⟨⟨hm, -⟩, hn, -⟩ := he.dims
  rw [hg.1] at hm
  rw [hg.2] at hn
  rw [vectorOf, vectorOf, Array3.length_vector, Array3.length_vector, hg.1, hg.2, hg'.1, hg'.2]
  exact Nat.mul_left_inj (Nat.mul_ne_zero (by omega) (by omega))

/-- The structure holds the groups of `csi`, the newest record first. -/
def HoldsGroups (csi : Trace α) (data : Fields α) : Prop :=
  ∀ m n, (data (fieldName m n)).map Mat.rows =
    if group csi m n = [] then none else some ((group csi m n).reverse.map vectorOf)

theorem holdsGroups_nil : HoldsGroups ([] : Trace α) (fun _ => none) := fun _ _ => rfl

theorem group_append (csi : Trace α) (e : LogEntry (Array3 α)) (m n : ℕ) :
    group (csi ++ [e]) m n = if InGroup m n e then group csi m n ++ [e] else group csi m n := by
  rw [group, List.filter_append, ← group]
  split <;> rename_i h <;> simp [h]

/-- The record `e` has as many tones as those of its group in `csi`. -/
def Fits (csi : Trace α) (e : LogEntry (Array3 α)) : Prop :=
  ∀ e' ∈ csi, InGroup (csiDataOf e).rows (csiDataOf e).cols e' → (csiDataOf e').pages = (csiDataOf e).pages

/-! ### One record -/

variable {csi : Trace α} {data : Fields α} {e : LogEntry (Array3 α)}

theorem HoldsGroups.update (h : HoldsGroups csi data) (he : Measured e) {allData : Mat α}
    (hrows : allData.rows = vectorOf e :: (group csi (csiDataOf e).rows (csiDataOf e).cols).reverse.map vectorOf) :
    HoldsGroups (csi ++ [e])
      (Function.update data (fieldName (csiDataOf e).rows (csiDataOf e).cols) (some allData)) := by
  obtain ⟨⟨-, hm⟩, -, hn⟩ := he.dims
  intro m n
  rw [group_append]
  by_cases hg : InGroup m n e
  · obtain ⟨rfl, rfl⟩ := hg
    have hin : InGroup (csiDataOf e).rows (csiDataOf e).cols e := ⟨rfl, rfl⟩
    simp [hin, hrows]
  · have hne : fieldName m n ≠ fieldName (csiDataOf e).rows (csiDataOf e).cols := fun heq => by
      obtain ⟨hm', hn'⟩ := fieldName_inj (by omega) (by omega) heq
      exact hg ⟨hm'.symm, hn'.symm⟩
    rw [Function.update_of_ne hne, if_neg hg]
    exact h m n

theorem mem_group {m n : ℕ} {e : LogEntry (Array3 α)} : e ∈ group csi m n ↔ e ∈ csi ∧ InGroup m n e := by
  simp [group]

/-- The width of the matrix that holds a group is the number of elements of its records. -/
theorem fits_iff_length (hlog : ∀ e ∈ csi, Measured e) {allData : Mat α}
    (hne : group csi (csiDataOf e).rows (csiDataOf e).cols ≠ [])
    (hrows : allData.rows = (group csi (csiDataOf e).rows (csiDataOf e).cols).reverse.map vectorOf) :
    Fits csi e ↔ (vectorOf e).length = allData.cols := by
  have hcols : ∀ e' ∈ group csi (csiDataOf e).rows (csiDataOf e).cols, (vectorOf e').length = allData.cols := by
    intro e' he'
    refine allData.rect _ ?_
    rw [hrows]
    exact List.mem_map_of_mem (List.mem_reverse.mpr he')
  constructor
  · intro hfits
    obtain ⟨e', he'⟩ := List.exists_mem_of_ne_nil _ hne
    obtain ⟨hmem, hin⟩ := mem_group.mp he'
    rw [← hcols e' he']
    exact ((length_vectorOf_iff (hlog e' hmem) hin ⟨rfl, rfl⟩).mpr (hfits e' hmem hin)).symm
  · intro hlen e' hmem hin
    have hsame := (hcols e' (mem_group.mpr ⟨hmem, hin⟩)).trans hlen.symm
    exact (length_vectorOf_iff (hlog e' hmem) hin ⟨rfl, rfl⟩).mp hsame

/-- The script takes a record exactly when it fits. -/
theorem streamStep_spec (h : HoldsGroups csi data) (hlog : ∀ e ∈ csi, Measured e) (he : Measured e) :
    (Fits csi e → ∃ data', streamStep data e = some data' ∧ HoldsGroups (csi ++ [e]) data') ∧
      (¬ Fits csi e → streamStep data e = none) := by
  have hfield := h (csiDataOf e).rows (csiDataOf e).cols
  by_cases hnil : group csi (csiDataOf e).rows (csiDataOf e).cols = []
  · -- the first record of its group
    rw [if_pos hnil, Option.map_eq_none_iff] at hfield
    have hrows : (Mat.row (vectorOf e)).rows =
        vectorOf e :: (group csi (csiDataOf e).rows (csiDataOf e).cols).reverse.map vectorOf := by
      rw [hnil]
      rfl
    refine ⟨fun _ => ⟨_, ?_, h.update he hrows⟩, fun hnot => ?_⟩
    · rw [streamStep]
      simp only [hfield]
      rfl
    · refine absurd (fun e' he' hg => ?_) hnot
      have hmem : e' ∈ group csi (csiDataOf e).rows (csiDataOf e).cols := mem_group.mpr ⟨he', hg⟩
      rw [hnil] at hmem
      cases hmem
  · rw [if_neg hnil] at hfield
    obtain ⟨old, hold, hrows⟩ := Option.map_eq_some_iff.mp hfield
    have hne : old.rows ≠ [] := by simpa [hrows] using hnil
    obtain ⟨hwide, hother⟩ := Mat.vertcat?_row (v := vectorOf e) hne
    rw [fits_iff_length hlog hnil hrows, streamStep]
    simp only [hold]
    constructor
    · intro hlen
      obtain ⟨allData, hcat, hall⟩ := hwide hlen
      exact ⟨_, by rw [← vectorOf, hcat]; rfl, h.update he (hall.trans (by rw [hrows]))⟩
    · intro hlen
      rw [← vectorOf, hother hlen]
      rfl

/-! ### All records -/

/-- Records with the same antennas have the same number of tones. -/
def SameTones (csi : Trace α) : Prop :=
  ∀ e ∈ csi, ∀ e' ∈ csi, (csiDataOf e).rows = (csiDataOf e').rows → (csiDataOf e).cols = (csiDataOf e').cols →
    (csiDataOf e).pages = (csiDataOf e').pages

/-- The script ends without an error, and each field has as its rows the CSI of the records with its antennas. -/
def GroupsAll (csi : Trace α) : Prop :=
  ∃ data, getAllCsiStreams csi = some data ∧
    ∀ m n, (((data (fieldName m n)).map Mat.rows).getD []).Perm ((group csi m n).map vectorOf)

theorem HoldsGroups.perm (h : HoldsGroups csi data) (m n : ℕ) :
    (((data (fieldName m n)).map Mat.rows).getD []).Perm ((group csi m n).map vectorOf) := by
  rw [h m n]
  split
  · rename_i hnil
    rw [hnil]
    exact List.Perm.refl _
  · exact (List.reverse_perm _).map vectorOf

theorem sameTones_append (h : SameTones csi) (hfits : Fits csi e) : SameTones (csi ++ [e]) := by
  intro a ha b hb hm hn
  rcases List.mem_append.mp ha with hold | hnew <;> rcases List.mem_append.mp hb with hold' | hnew'
  · exact h a hold b hold' hm hn
  · obtain rfl := List.mem_singleton.mp hnew'
    exact hfits a hold ⟨hm, hn⟩
  · obtain rfl := List.mem_singleton.mp hnew
    exact (hfits b hold' ⟨hm.symm, hn.symm⟩).symm
  · rw [List.mem_singleton.mp hnew, List.mem_singleton.mp hnew']

theorem getAllCsiStreams_holds (hlog : ∀ e ∈ csi, Measured e) (hsame : SameTones csi) :
    ∃ data, getAllCsiStreams csi = some data ∧ HoldsGroups csi data := by
  refine foldlM_rule holdsGroups_nil fun pre e data hpre h => ?_
  have hmem : ∀ e' ∈ pre, e' ∈ csi := fun e' he' => hpre.subset (List.mem_append_left _ he')
  have hlast : e ∈ csi := hpre.subset (List.mem_append_right _ List.mem_cons_self)
  have hfits : Fits pre e := fun e' he' hg => hsame e' (hmem e' he') e hlast hg.1 hg.2
  exact (streamStep_spec h (fun e' he' => hlog e' (hmem e' he')) (hlog e hlast)).1 hfits

theorem sameTones_of_getAllCsiStreams (hlog : ∀ e ∈ csi, Measured e) (h : getAllCsiStreams csi = some data) :
    SameTones csi := by
  let P : Trace α → Fields α → Prop := fun pre data => (∀ e ∈ pre, Measured e) → HoldsGroups pre data ∧ SameTones pre
  have h0 : P [] fun _ => none := fun _ => ⟨holdsGroups_nil, fun e he => by cases he⟩
  refine (foldlM_inv (P := P) (fun pre e s t hP hstep hmeasured => ?_) h0 h hlog).2
  have hpre : ∀ e' ∈ pre, Measured e' := fun e' he' => hmeasured e' (List.mem_append_left _ he')
  have hlast : Measured e := hmeasured e (List.mem_append_right _ List.mem_cons_self)
  obtain ⟨hholds, hsame⟩ := hP hpre
  obtain ⟨htake, hrefuse⟩ := streamStep_spec hholds hpre hlast
  by_cases hfits : Fits pre e
  · obtain ⟨data', hdata', hnext⟩ := htake hfits
    cases hstep.symm.trans hdata'
    exact ⟨hnext, sameTones_append hsame hfits⟩
  · rw [hrefuse hfits] at hstep
    cases hstep

/-- Grouping loses and duplicates nothing exactly when the records of each group have the same number of tones. -/
theorem groupsAll_iff (csi : Trace α) (hlog : ∀ e ∈ csi, Measured e) : GroupsAll csi ↔ SameTones csi := by
  constructor
  · rintro ⟨data, hdata, -⟩
    exact sameTones_of_getAllCsiStreams hlog hdata
  · intro hsame
    obtain ⟨data, hdata, hholds⟩ := getAllCsiStreams_holds hlog hsame
    exact ⟨data, hdata, hholds.perm⟩

end Streams

/-- Two packets with the same antennas and tones, and between them one without CSI. -/
theorem groupsAll_iff_two :
    let header : LogHeader := ⟨some 5, some 5, some 2437, some 0, some 0, some 139, some 0, some 2, some 1, some 2, some 40,
      some 38, some 36, some 128, some 0⟩
    let csi : Trace ℤ := [⟨header, .array ⟨1, 2, 2, fun _ j k => j + 2 * k⟩, .zero⟩, ⟨header, .zero, .zero⟩,
      ⟨header, .array ⟨1, 2, 2, fun _ _ k => k⟩, .zero⟩]
    SameTones csi ∧ (GroupsAll csi ↔ SameTones csi) := by
  intro header csi
  refine ⟨?_, groupsAll_iff csi ?_⟩
  · simp [SameTones, csi, csiDataOf, Array3.scalar]
  · simp [Measured, csi]

/-- A packet without CSI and one with two tones of one antenna each fall in the same group, and the script fails. -/
theorem not_groupsAll_mixed :
    let header : LogHeader := ⟨some 5, some 5, some 2437, some 0, some 0, some 139, some 0, some 2, some 1, some 1, some 40,
      some 38, some 36, some 128, some 0⟩
    let csi : Trace ℤ := [⟨header, .array ⟨1, 1, 2, fun _ _ k => k⟩, .zero⟩, ⟨{ header with csiLen := some 0 }, .zero, .zero⟩]
    (∀ e ∈ csi, Measured e) ∧ (getAllCsiStreams csi).isNone = true ∧ ¬ GroupsAll csi := by
  intro header csi
  have hnone : (getAllCsiStreams csi).isNone = true := by decide
  refine ⟨by simp [Measured, csi], hnone, ?_⟩
  rintro ⟨data, hdata, -⟩
  rw [hdata] at hnone
  cases hnone

end AtherosCsi
