import AtherosCsi.Theorems.FrameOffsets
import AtherosCsi.Theorems.TruncatedLog

/-! What `read_log_file` takes any file to be, well formed or not: frames that stand one behind the other from the first
    byte on, each as long as the lengths in its header say. A frame counts as long as it ends 420 bytes before the file
    does, and its record is read from its own bytes alone. -/

namespace AtherosCsi
open LittleEndian Loop

/-! ### Frames -/

/-- The `w` bytes from byte `i` on, as a number. -/
def field (bytes : List UInt8) (i w : ℕ) : ℕ := leVal ((bytes.drop i).take w)

/-- How many bytes the frame at the front takes. -/
def frameLen (bytes : List UInt8) : ℕ := 27 + field bytes 10 2 + field bytes 25 2

/-- Where the fields of a record stand in its frame. -/
def headerAt (bytes : List UInt8) : LogHeader where
  timestamp := some (toDouble (field bytes 2 8))
  csiLen := some (field bytes 10 2)
  channel := some (field bytes 12 2)
  errInfo := some (field bytes 14 1)
  noiseFloor := some (field bytes 15 1)
  rate := some (field bytes 16 1)
  bandWidth := some (field bytes 17 1)
  numTones := some (field bytes 18 1)
  nr := some (field bytes 19 1)
  nc := some (field bytes 20 1)
  rssi := some (field bytes 21 1)
  rssi1 := some (field bytes 22 1)
  rssi2 := some (field bytes 23 1)
  rssi3 := some (field bytes 24 1)
  payloadLen := some (field bytes 25 2)

theorem field_append {frame : List UInt8} {i w : ℕ} (rest : List UInt8) (h : i + w ≤ frame.length) :
    field (frame ++ rest) i w = field frame i w := by
  rw [field, field, List.drop_append_of_le_length (by omega), List.take_append_of_le_length (by rw [List.length_drop]; omega)]

theorem frameLen_append {frame : List UInt8} (rest : List UInt8) (h : 27 ≤ frame.length) :
    frameLen (frame ++ rest) = frameLen frame := by
  rw [frameLen, field_append rest (by omega), field_append rest (by omega), frameLen]

theorem headerAt_append {frame : List UInt8} (rest : List UInt8) (h : 27 ≤ frame.length) :
    headerAt (frame ++ rest) = headerAt frame := by
  simp (disch := omega) only [headerAt, field_append]

/-- The reader takes the frame at the front of what is left of its file: the bytes that the length before it announces
    are there, and so are the frame and 420 bytes more. -/
structure Taken (bytes : List UInt8) : Prop where
  announced : 2 + field bytes 0 2 ≤ bytes.length
  whole : frameLen bytes + 420 ≤ bytes.length

section Reader
variable {γ : Type} (readCsi : ℕ → List UInt8 → Option ℕ → Option ℕ → Option ℕ → γ)

/-- The record of a frame at the offset `off` of its file. -/
def entryAt (off : ℕ) (frame : List UInt8) : LogEntry γ :=
  { headerAt frame with
    csi :=
      if 0 < field frame 10 2 then
        .array (readCsi (off + 27) ((frame.drop 27).take (field frame 10 2)) (some (field frame 19 1))
          (some (field frame 20 1)) (some (field frame 18 1)))
      else .zero
    payload :=
      if 0 < field frame 25 2 then .array ((frame.drop (27 + field frame 10 2)).take (field frame 25 2)) else .zero }

theorem entryAt_append (off : ℕ) {frame : List UInt8} (rest : List UInt8) (h : frame.length = frameLen frame) :
    entryAt readCsi off (frame ++ rest) = entryAt readCsi off frame := by
  have h27 : 27 ≤ frame.length := by rw [h, frameLen]; omega
  have hlen : frame.length = 27 + field frame 10 2 + field frame 25 2 := h
  rw [entryAt, headerAt_append rest h27]
  simp (disch := omega) only [field_append]
  rw [List.drop_append_of_le_length h27, List.take_append_of_le_length (by rw [List.length_drop]; omega),
    List.drop_append_of_le_length (by omega), List.take_append_of_le_length (by rw [List.length_drop]; omega), entryAt]

/-- The bytes from the offset `off` of a file on are frames with the records `es`, and then no frame that the reader
    takes. -/
inductive Tiles : ℕ → List UInt8 → List (LogEntry γ) → Prop
  | stop {off : ℕ} {rest : List UInt8} (h : ¬ Taken rest) : Tiles off rest []
  | frame {off : ℕ} {frame rest : List UInt8} {es : List (LogEntry γ)} (hlen : frame.length = frameLen frame)
      (h : Taken (frame ++ rest)) (hrest : Tiles (off + frame.length) rest es) :
      Tiles off (frame ++ rest) (entryAt readCsi off frame :: es)

theorem exists_tiles (off : ℕ) (bytes : List UInt8) : ∃ es, Tiles readCsi off bytes es := by
  induction hn : bytes.length using Nat.strong_induction_on generalizing off bytes with
  | _ n ih =>
    by_cases h : Taken bytes
    · have hwhole := h.whole
      have h27 : 27 ≤ frameLen bytes := by rw [frameLen]; omega
      have hlen : (bytes.take (frameLen bytes)).length = frameLen bytes := List.length_take_of_le (by omega)
      have hframe : frameLen (bytes.take (frameLen bytes)) = frameLen bytes := by
        have happend := @frameLen_append (bytes.take (frameLen bytes)) (bytes.drop (frameLen bytes)) (by omega)
        rw [List.take_append_drop] at happend
        exact happend.symm
      obtain ⟨es, hes⟩ := ih (bytes.drop (frameLen bytes)).length (by rw [List.length_drop]; omega)
        (off + (bytes.take (frameLen bytes)).length) _ rfl
      refine ⟨entryAt readCsi off (bytes.take (frameLen bytes)) :: es, ?_⟩
      have htiles := Tiles.frame (hlen.trans hframe.symm) (by rw [List.take_append_drop]; exact h) hes
      rwa [List.take_append_drop] at htiles
    · exact ⟨[], .stop h⟩

/-! ### The reader -/

theorem readHeader_eq {c : Cursor} (h : 27 ≤ c.rest.length) :
    readHeader ⟨c.rest.drop 2, c.cur + 2⟩ = (headerAt c.rest, ⟨c.rest.drop 27, c.cur + 27⟩) := by
  have hfield : ∀ {i w : ℕ}, i + w ≤ 27 → ∀ cur, readField w ⟨c.rest.drop i, cur⟩ =
      (some (field c.rest i w), ⟨c.rest.drop (i + w), cur + w⟩) := fun hi cur => by
    rw [readField, if_pos (by rw [List.length_drop]; omega), List.drop_drop, field]
  simp (disch := decide) only [readHeader, bind_apply, pure_apply, hfield, Nat.reduceAdd, Nat.add_assoc, Option.map_some, headerAt]

/-- A round takes the frame at the front, or it ends the loop. -/
theorem readBlock_of_taken {len : ℕ} {c : Cursor} (hpos : c.cur + c.rest.length = len) (h : Taken c.rest) :
    readBlock readCsi len c =
      .ok (entryAt readCsi c.cur c.rest, ⟨c.rest.drop (frameLen c.rest), c.cur + frameLen c.rest⟩) := by
  have hlen : frameLen c.rest = 27 + field c.rest 10 2 + field c.rest 25 2 := rfl
  obtain ⟨hannounced, hwhole⟩ := h
  have hfield : readField 2 c = (some (field c.rest 0 2), ⟨c.rest.drop 2, c.cur + 2⟩) := by
    rw [readField, if_pos (by omega), field, List.drop_zero]
  have hcsi : (headerAt c.rest).csiLen.getD 0 = field c.rest 10 2 := rfl
  have hpayload : (headerAt c.rest).payloadLen.getD 0 = field c.rest 25 2 := rfl
  rw [readBlock, if_pos (by omega)]
  simp only [hfield, readHeader_eq (show 27 ≤ c.rest.length by omega), readCsiField_eq, readPayload_eq, hcsi, hpayload,
    Option.any_some, List.drop_drop, decide_eq_true_eq]
  rw [if_neg (by omega), if_neg (by omega), hlen]
  simp only [Nat.add_assoc]
  rfl

theorem readBlock_of_not_taken {len : ℕ} {c : Cursor} (hpos : c.cur + c.rest.length = len) (h : ¬ Taken c.rest) :
    ∃ exit, readBlock readCsi len c = .error exit := by
  rcases hblock : readBlock readCsi len c with exit | ⟨e, c'⟩
  · exact ⟨exit, rfl⟩
  · obtain ⟨rfl, hnear⟩ := readBlock_cursor readCsi hblock
    simp only at hnear
    obtain ⟨hstores, -⟩ | ⟨-, exit, herr⟩ := readBlock_of_header readCsi (n := frameLen c.rest) hpos (by omega) rfl
    · obtain ⟨hannounced, hwhole⟩ := hstores
      refine absurd ⟨?_, by omega⟩ h
      rw [field, List.drop_zero]
      omega
    · rw [hblock] at herr
      cases herr

/-- From the start of a frame on, the loop stores the records of the frames that are left. -/
theorem readLoop_tiles {len : ℕ} {off : ℕ} {rest : List UInt8} {es : List (LogEntry γ)} (h : Tiles readCsi off rest es)
    (s : ReaderState γ) (hs : s.cursor = ⟨rest, off⟩) (hpos : off + rest.length = len) (hcells : s.count ≤ s.ret.length) :
    (readLoop readCsi len s).stored = s.stored ++ es.map some ∧ (readLoop readCsi len s).count = s.count + es.length := by
  induction h generalizing s with
  | @stop off rest h =>
    obtain ⟨exit, herr⟩ := readBlock_of_not_taken readCsi (c := ⟨rest, off⟩) hpos h
    rw [← hs] at herr
    rw [readLoop_of_error herr, List.map_nil, List.append_nil]
    exact ⟨rfl, rfl⟩
  | @frame off frame rest es hlen h _ ih =>
    have h27 : 27 ≤ frame.length := by rw [hlen, frameLen]; omega
    have hblock : readBlock readCsi len s.cursor = .ok (entryAt readCsi off frame, ⟨rest, off + frame.length⟩) := by
      rw [hs, readBlock_of_taken readCsi (c := ⟨frame ++ rest, off⟩) hpos h, entryAt_append readCsi off rest hlen,
        frameLen_append rest h27, ← hlen, List.drop_left]
    obtain ⟨hstored, hcells'⟩ := cellSet_of_le (entryAt readCsi off frame) hcells
    obtain ⟨ih₁, ih₂⟩ := ih ⟨⟨rest, off + frame.length⟩, s.count + 1, cellSet s.ret s.count (entryAt readCsi off frame)⟩ rfl
      (by rw [← hpos, List.length_append, Nat.add_assoc]) hcells'
    rw [readLoop, iterate_of_some (readStep_of_ok hblock)]
    refine ⟨ih₁.trans ?_, ih₂.trans ?_⟩
    · simp only [ReaderState.stored, hstored, List.map_cons, List.append_assoc, List.singleton_append]
    · simp only [List.length_cons]
      omega

/-- Every file has just one division into frames, and `read_log_file` returns the records of all of them but the last, or
    the only one. Without a frame it returns a cell that was never assigned, or fails on an empty file. -/
theorem readLogFile_tiles (file : List UInt8) :
    (∃! es, Tiles readCsi 0 file es) ∧ ∀ es, Tiles readCsi 0 file es → readLogFile readCsi file =
      if es ≠ [] then .ok ((es.take (max 1 (es.length - 1))).map some)
      else if file ≠ [] then .ok [none] else .error .indexExceedsBounds := by
  have hloop : ∀ es, Tiles readCsi 0 file es →
      (readLoop readCsi file.length (readStart γ file)).stored = es.map some ∧
        (readLoop readCsi file.length (readStart γ file)).count = es.length := by
    intro es hes
    obtain ⟨hstored, hcount⟩ := readLoop_tiles readCsi hes (readStart γ file) rfl (Nat.zero_add _) (Nat.zero_le _)
    exact ⟨hstored, hcount.trans (Nat.zero_add _)⟩
  refine ⟨?_, fun es hes => ?_⟩
  · obtain ⟨es, hes⟩ := exists_tiles readCsi 0 file
    refine ⟨es, hes, fun es' hes' => ?_⟩
    exact List.map_injective_iff.mpr (Option.some_injective _) ((hloop es' hes').1.symm.trans (hloop es hes).1)
  · obtain ⟨hstored, hcount⟩ := hloop es hes
    by_cases hnil : es = []
    · rw [if_neg (not_not.mpr hnil)]
      subst hnil
      cases hes with
      | stop h =>
        obtain ⟨exit, herr⟩ : ∃ exit, readBlock readCsi file.length (readStart γ file).cursor = .error exit :=
          readBlock_of_not_taken readCsi (Nat.zero_add _) h
        simp only [readLogFile, readLoop_of_error herr]
        rcases file with _ | ⟨b, file⟩
        · rfl
        · have hcells : ((b :: file).length + 419) / 420 = file.length / 420 + 1 := by
            rw [List.length_cons]
            omega
          rw [readStart, hcells]
          rfl
    · have hpos := List.length_pos_iff.mpr hnil
      rw [if_pos hnil, readLogFile_of_stored (by rw [hcount]; exact hpos), hstored, hcount, List.map_take]

end Reader

end AtherosCsi
