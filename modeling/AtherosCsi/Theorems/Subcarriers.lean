import AtherosCsi.Scripts
import AtherosCsi.Lib.Loop

/-! What `subcarrier_pertime` keeps of a trace: the records of three by three antennas whose CSI has as many tones as
    the first record says. -/

namespace AtherosCsi
open MatArray Loop

section Subcarriers
variable {α : Type} [Zero α]

def Kept (numTones : ℕ) (e : LogEntry (Array3 α)) : Prop :=
  (csiDataOf e).pages = numTones ∧ (csiDataOf e).rows = 3 ∧ (csiDataOf e).cols = 3

instance (numTones : ℕ) (e : LogEntry (Array3 α)) : Decidable (Kept numTones e) := inferInstanceAs (Decidable (_ ∧ _))

/-- The records that the script keeps, in order. -/
def kept (csi : Trace α) : Trace α :=
  match csi.head?.bind (·.numTones) with
  | some numTones => csi.filter (Kept numTones ·)
  | none => []

/-- The packets by tones matrix of a pair of antennas. -/
def toneRows (csi : Trace α) (rx tx : ℕ) : List (List α) := (kept csi).map fun e => (csiDataOf e).line rx tx

/-- What the variable `subcarriers` holds after the records `csi`. -/
def Collected (numTones : ℕ) (csi : Trace α) : Option (Array4 α) → Prop
  | none => csi.filter (Kept numTones ·) = []
  | some s => (s.pages = numTones ∧ s.rows = 3 ∧ s.cols = 3) ∧
      ∀ r c, s.lines r c = (csi.filter (Kept numTones ·)).map fun e => (csiDataOf e).line r c

theorem pertimeStep_collected {numTones : ℕ} {csi : Trace α} {st : Option (Array4 α)} (h : Collected numTones csi st)
    (e : LogEntry (Array3 α)) : ∃ st', pertimeStep numTones st e = some st' ∧ Collected numTones (csi ++ [e]) st' := by
  by_cases he : Kept numTones e
  · have hfilter : (csi ++ [e]).filter (Kept numTones ·) = csi.filter (Kept numTones ·) ++ [e] := by simp [he]
    cases st with
    | none =>
      have hnil : csi.filter (Kept numTones ·) = [] := h
      refine ⟨some (Array4.ofBlock (csiDataOf e)), if_pos he, he, fun r c => ?_⟩
      rw [hfilter, hnil]
      rfl
    | some s =>
      obtain ⟨⟨hpages, hrows, hcols⟩, hlines⟩ := h
      obtain ⟨t, ht, hsize, hnext⟩ := s.push?_eq (a := csiDataOf e)
        ⟨hrows.trans he.2.1.symm, hcols.trans he.2.2.symm, hpages.trans he.1.symm⟩
      have hstep : pertimeStep numTones (some s) e = (s.push? (csiDataOf e)).map some := if_pos he
      obtain ⟨htrows, htcols, htpages⟩ : t.rows = s.rows ∧ t.cols = s.cols ∧ t.pages = s.pages := by
        simpa only [Prod.mk.injEq] using hsize
      refine ⟨some t, by rw [hstep, ht, Option.map_some],
        ⟨htpages.trans hpages, htrows.trans hrows, htcols.trans hcols⟩, fun r c => ?_⟩
      rw [hnext, hlines, hfilter, List.map_append]
      rfl
  · have hfilter : (csi ++ [e]).filter (Kept numTones ·) = csi.filter (Kept numTones ·) := by simp [he]
    refine ⟨st, if_neg he, ?_⟩
    unfold Collected at h ⊢
    rwa [hfilter]

theorem pertime_loop (numTones : ℕ) (csi : Trace α) :
    ∃ st, csi.foldlM (pertimeStep numTones) none = some st ∧ Collected numTones csi st :=
  foldlM_rule rfl fun _ e _ _ h => pertimeStep_collected h e

/-- The script has a result where it keeps a record. -/
theorem exists_subcarrierPertime {csi : Trace α} (h : kept csi ≠ []) : ∃ s, subcarrierPertime csi = some s := by
  unfold kept at h
  split at h
  · rename_i numTones htones
    obtain ⟨first, hfirst, hnum⟩ := Option.bind_eq_some_iff.mp htones
    obtain ⟨st, hst, hcollected⟩ := pertime_loop numTones csi
    cases st with
    | none => exact absurd hcollected h
    | some s => exact ⟨s, by rw [subcarrierPertime, hfirst, Option.bind_eq_bind, Option.bind_some, hnum,
        Option.bind_eq_bind, Option.bind_some, hst]; rfl⟩
  · exact absurd rfl h

/-- Whatever `subcarrier_pertime` returns holds the kept records, one behind the other. -/
theorem subcarrierPertime_spec {csi : Trace α} {s : Array4 α} (h : subcarrierPertime csi = some s) :
    csi.head?.bind (·.numTones) = some s.pages ∧ (s.rows = 3 ∧ s.cols = 3) ∧
      ∀ r c, s.lines r c = toneRows csi r c := by
  unfold subcarrierPertime at h
  obtain ⟨first, hfirst, h⟩ := Option.bind_eq_some_iff.mp h
  obtain ⟨numTones, htones, h⟩ := Option.bind_eq_some_iff.mp h
  obtain ⟨st, hst, h⟩ := Option.bind_eq_some_iff.mp h
  obtain ⟨st', hst', hcollected⟩ := pertime_loop numTones csi
  cases hst.symm.trans hst'
  subst h
  obtain ⟨⟨hpages, hsize⟩, hlines⟩ := hcollected
  have hnum : csi.head?.bind (·.numTones) = some numTones := by rw [hfirst, Option.bind_some, htones]
  refine ⟨by rw [hpages, hnum], hsize, fun r c => ?_⟩
  rw [hlines, toneRows, kept, hnum]

theorem kept_sublist (csi : Trace α) : (kept csi).Sublist csi := by
  unfold kept
  split
  · exact List.filter_sublist
  · exact List.nil_sublist csi

/-- A result with as many blocks as there are records has left out none. -/
theorem kept_eq_of_length {csi : Trace α} {s : Array4 α} (h : subcarrierPertime csi = some s)
    (hall : s.blocks.length = csi.length) : kept csi = csi := by
  obtain ⟨-, -, hlines⟩ := subcarrierPertime_spec h
  have hlen := congrArg List.length (hlines 1 1)
  rw [Array4.lines, toneRows, List.length_map, List.length_map, hall] at hlen
  exact (kept_sublist csi).eq_of_length hlen.symm

/-- The records that are kept have the tones of the first. -/
theorem pages_of_mem_kept {csi : Trace α} {s : Array4 α} (h : subcarrierPertime csi = some s) {e : LogEntry (Array3 α)}
    (he : e ∈ kept csi) : (csiDataOf e).pages = s.pages := by
  obtain ⟨htones, -, -⟩ := subcarrierPertime_spec h
  rw [kept, htones] at he
  exact (of_decide_eq_true (List.mem_filter.mp he).2).1

/-- The matrix that the scripts take from the result, for one of its pairs of antennas. With one tone it would be a
    single row. -/
theorem lines?_subcarrierPertime {csi : Trace α} {s : Array4 α} (h : subcarrierPertime csi = some s) {rx tx : ℕ}
    (hrx : 1 ≤ rx ∧ rx ≤ 3) (htx : 1 ≤ tx ∧ tx ≤ 3) (hpages : 2 ≤ s.pages) :
    ∃ a, s.lines? rx tx = some a ∧ a.cols = s.pages ∧ a.rows = toneRows csi rx tx := by
  obtain ⟨-, ⟨hrows, hcols⟩, hlines⟩ := subcarrierPertime_spec h
  obtain ⟨a, ha, hwidth, hall⟩ := Array4.lines?_eq (s := s) (r := rx) (c := tx) (by omega) (by omega) (by omega)
  exact ⟨a, ha, hwidth, hall.trans (hlines rx tx)⟩

end Subcarriers

end AtherosCsi
