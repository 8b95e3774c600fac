import AtherosCsi.Theorems.CsiStreams
import AtherosCsi.Theorems.TruncatedLog

/-! The traces that the scripts get from logs of records. Each record has the dimensions that its status announces. -/

namespace AtherosCsi
open MatArray Loop

namespace LogRecord
variable (r : LogRecord)

/-- The record as the scripts see it. -/
def traced : LogEntry (Array3 (ℤ × ℤ)) :=
  { r.entry.toLogHeader with csi := if r.csi = [] then .zero else .array r.csiArray.toArray3, payload := r.entry.payload }

theorem scriptEntry_entry : scriptEntry r.entry = some r.traced := by
  by_cases hcsi : r.csi = []
  · simp [scriptEntry, entry, traced, hcsi]
  · simp [scriptEntry, entry, traced, hcsi]

theorem traced_measured : Measured r.traced := by
  intro a ha
  by_cases hcsi : r.csi = []
  · simp [traced, hcsi] at ha
  · obtain ⟨hnr, hnc, hnt, -⟩ := r.csi_dims.resolve_left hcsi
    simp only [traced, if_neg hcsi, MatField.array.injEq] at ha
    subst ha
    exact ⟨hnr, hnc, hnt⟩

end LogRecord

/-- From a front part of a log with a readable record, the scripts get at least one record, and all of them as they
    were logged. -/
theorem traceOf_readLogFile (past : ℕ → ℕ → UInt8) (rs : List LogRecord) (file : List UInt8) (hfile : file <+: logBytes rs)
    (h : 1 ≤ readable rs file.length) :
    ∃ csi, (readLogFile (fun off => readCsi (past off)) file).toOption.bind traceOf = some csi ∧
      csi = (rs.take (max 1 (readable rs file.length - 1))).map LogRecord.traced ∧ ∀ e ∈ csi, Measured e := by
  refine ⟨_, ?_, rfl, ?_⟩
  · rw [readLogFile_of_readable past hfile h]
    exact mapM_map_eq_some fun r _ => r.scriptEntry_entry
  · intro e he
    obtain ⟨r, -, rfl⟩ := List.mem_map.mp he
    exact r.traced_measured

end AtherosCsi
