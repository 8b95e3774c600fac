import AtherosCsi.Record
import AtherosCsi.Theorems.LogGrowth
import AtherosCsi.Theorems.Unpackers

/-! Reading the log of a list of records, or the front part of one. Before each round the cursor stands at
    the start of a frame, so a round either finds a whole frame and reads it back, or finds a part of one
    and stops. Only frames that end 420 bytes or more before the end of the file are stored. -/

namespace AtherosCsi
open LittleEndian Loop Reservoir

/-! ### What the reader makes of a record -/

namespace LogRecord
variable (r : LogRecord)

def entries : ℕ := r.numTones.toNat * r.nc.toNat * r.nr.toNat

def csiArray : MxArray where
  nr := r.nr.toNat
  nc := r.nc.toNat
  numTones := r.numTones.toNat
  pr := (List.range r.entries).map fun e => (realPart (leVal r.csi) e).toInt
  pi := (List.range r.entries).map fun e => (imagPart (leVal r.csi) e).toInt

def entry : LogEntry (Option MxArray) where
  timestamp := some r.tstamp.toNat
  csiLen := some r.csi.length
  channel := some r.channel.toNat
  errInfo := some r.phyerr.toNat
  noiseFloor := some r.noise.toNat
  rate := some r.rate.toNat
  bandWidth := some r.chanBW.toNat
  numTones := some r.numTones.toNat
  nr := some r.nr.toNat
  nc := some r.nc.toNat
  rssi := some r.rssi.toNat
  rssi1 := some r.rssi0.toNat
  rssi2 := some r.rssi1.toNat
  rssi3 := some r.rssi2.toNat
  payloadLen := some r.payload.length
  csi := if r.csi = [] then .zero else .array (some r.csiArray)
  payload := if r.payload = [] then .zero else .array r.payload

/-- `read_csi` reads the CSI of a record back, whatever it finds behind the end of its buffer. -/
theorem readCsi_eq (past : ℕ → UInt8) (hcsi : r.csi ≠ []) :
    readCsi past r.csi (some r.nr.toNat) (some r.nc.toNat) (some r.numTones.toNat) = some r.csiArray := by
  obtain hnil | ⟨hnr, hnc, hnt, hlen⟩ := r.csi_dims
  · exact absurd hnil hcsi
  have hlen' : r.csi.length = (20 * r.entries + 7) / 8 := by
    rw [hlen, entries]
    ring_nf
  have hmem : ∀ i < bytesRead r.entries, some (r.csi[i]?.getD (past i)) = some (r.csi[i]?.getD (past i)) :=
    fun _ _ => rfl
  obtain ⟨s, hmex, hput⟩ := mexFunction_eq hnr.2 hnc.2 hnt.2 hmem
  -- The unpacker reads whole words, hence all bytes of the CSI and at most one more.
  have hbytes : ∃ ys, firstBytes (fun i => r.csi[i]?.getD (past i)) (bytesRead r.entries) = r.csi ++ ys := by
    have hle : r.csi.length ≤ bytesRead r.entries := by
      rw [hlen', bytesRead]
      omega
    obtain ⟨m, hm⟩ := Nat.exists_eq_add_of_le hle
    rw [hm, firstBytes_add]
    refine ⟨_, congrArg (· ++ _) ?_⟩
    apply List.ext_getElem
    · simp
    · intro i h₁ h₂
      simp [firstBytes, h₂]
  obtain ⟨ys, hys⟩ := hbytes
  have hpart : ∀ p < 2 * r.entries, part (leVal (r.csi ++ ys)) p = part (leVal r.csi) p := by
    intro p hp
    rw [part, part, chunk_leVal_append (by omega)]
  rw [← entries, hys] at hput
  obtain ⟨hpr, hpi⟩ := hput.arrays
  have hreal : ∀ e ∈ List.range r.entries, (realPart (leVal (r.csi ++ ys)) e).toInt = (realPart (leVal r.csi) e).toInt := by
    intro e he
    have := List.mem_range.mp he
    exact congrArg Int32.toInt (hpart _ (by omega))
  have himag : ∀ e ∈ List.range r.entries, (imagPart (leVal (r.csi ++ ys)) e).toInt = (imagPart (leVal r.csi) e).toInt := by
    intro e he
    have := List.mem_range.mp he
    exact congrArg Int32.toInt (hpart _ (by omega))
  refine hmex.trans ?_
  rw [hpr, hpi, List.map_congr_left hreal, List.map_congr_left himag, csiArray]

end LogRecord

/-! ### One frame -/

theorem readField_leBytes {w n : ℕ} (h : n < 256 ^ w) (ys : List UInt8) (cur : ℕ) :
    readField w ⟨leBytes w n ++ ys, cur⟩ = (some n, ⟨ys, cur + w⟩) := by
  have hle : w ≤ (leBytes w n ++ ys).length := by simp
  simp only [readField, hle, if_true, List.take_left' (length_leBytes w n), List.drop_left' (length_leBytes w n),
    leVal_leBytes_of_lt h]

theorem readField_byte (b : UInt8) (ys : List UInt8) (cur : ℕ) :
    readField 1 ⟨b :: ys, cur⟩ = (some b.toNat, ⟨ys, cur + 1⟩) := by
  simp [readField]

namespace LogRecord
variable (r : LogRecord)

theorem readHeader_body (ys : List UInt8) (cur : ℕ) :
    readHeader ⟨r.body ++ ys, cur⟩ = (r.entry.toLogHeader, ⟨r.csi ++ r.payload ++ ys, cur + 25⟩) := by
  have hcsi := r.csi_le
  have hpayload := r.payload_le
  have hchannel := r.channel.toNat_lt
  have htstamp := r.tstamp_lt
  have hdouble : toDouble r.tstamp.toNat = r.tstamp.toNat := if_pos htstamp
  simp (disch := omega) only [DeviceRecord.body, DeviceRecord.statusBytes, List.append_assoc, List.cons_append,
    List.nil_append, readHeader, bind_apply, pure_apply, readField_leBytes, readField_byte, Option.map_some, hdouble, entry]

/-- A round at the start of a whole frame reads it back, and stores it unless the file ends soon after. -/
theorem readBlock_frame (past : ℕ → ℕ → UInt8) (len cur : ℕ) (ys : List UInt8)
    (hpos : cur + (r.frame ++ ys).length = len) :
    readBlock (fun off => readCsi (past off)) len ⟨r.frame ++ ys, cur⟩ =
      if r.frame.length + 420 ≤ (r.frame ++ ys).length then .ok (r.entry, ⟨ys, cur + r.frame.length⟩)
      else .error .nearEnd := by
  have hframe : r.frame.length = 2 + r.len := r.length_frame
  have hlen : r.len = 25 + r.csi.length + r.payload.length := rfl
  have hmax := r.len_le
  rw [List.length_append] at hpos ⊢
  have hfield : readField 2 ⟨r.frame ++ ys, cur⟩ = (some r.len, ⟨r.body ++ ys, cur + 2⟩) := by
    rw [DeviceRecord.frame, List.append_assoc]
    exact readField_leBytes (by omega) _ _
  have hcsi : (if 0 < r.csi.length then MatField.array (readCsi (past (cur + 2 + 25)) r.csi (some r.nr.toNat)
      (some r.nc.toNat) (some r.numTones.toNat)) else .zero) = r.entry.csi := by
    rw [entry]
    by_cases hnil : r.csi = []
    · simp [hnil]
    · rw [if_pos (List.length_pos_iff.mpr hnil), if_neg hnil, r.readCsi_eq _ hnil]
  have hpayload : (if 0 < r.payload.length then MatField.array r.payload else .zero) = r.entry.payload := by
    rw [entry]
    by_cases hnil : r.payload = []
    · simp [hnil]
    · rw [if_pos (List.length_pos_iff.mpr hnil), if_neg hnil]
  have hcl : r.entry.csiLen.getD 0 = r.csi.length := rfl
  have hpl : r.entry.payloadLen.getD 0 = r.payload.length := rfl
  have hmore : cur + 4 < len := by omega
  have hcur : cur + 2 + 25 + r.csi.length + r.payload.length = cur + r.frame.length := by omega
  rw [readBlock, if_pos hmore]
  simp only [hfield, r.readHeader_body, readCsiField_eq, readPayload_eq, hcl, hpl, List.append_assoc, List.take_left,
    List.drop_left]
  rw [if_neg (by simp; omega)]
  by_cases hend : r.frame.length + 420 ≤ r.frame.length + ys.length
  · rw [hcur, if_neg (by omega), if_pos hend]
    exact congrArg (fun e => Except.ok (e, _)) (by rw [hpayload]; exact congrArg (LogEntry.mk _ · _) hcsi)
  · rw [hcur, if_pos (by omega), if_neg hend]

theorem readBlock_part (past : ℕ → ℕ → UInt8) {len cur : ℕ} {rest : List UInt8} (hpre : rest <+: r.frame)
    (hlt : rest.length < r.frame.length) (hpos : cur + rest.length = len) :
    ∃ exit, readBlock (fun off => readCsi (past off)) len ⟨rest, cur⟩ = .error exit := by
  have hmax := r.len_le
  rw [r.length_frame] at hlt
  unfold readBlock
  split
  · rename_i hmore
    simp only at hmore
    -- The length is there, but not all of what it announces.
    obtain ⟨zs, hzs⟩ : ∃ zs, rest = leBytes 2 r.len ++ zs := by
      have hle : leBytes 2 r.len <+: rest :=
        List.prefix_of_prefix_length_le (List.prefix_append _ _) hpre (by simp only [length_leBytes]; omega)
      obtain ⟨zs, hzs⟩ := hle
      exact ⟨zs, hzs.symm⟩
    have hfield : readField 2 ⟨rest, cur⟩ = (some r.len, ⟨zs, cur + 2⟩) := by
      rw [hzs]
      exact readField_leBytes (by omega) _ _
    simp only [hfield]
    rw [if_pos (by simp; omega)]
    exact ⟨_, rfl⟩
  · exact ⟨_, rfl⟩

end LogRecord

/-! ### The whole log -/

theorem logBytes_cons (r : LogRecord) (rs : List LogRecord) : logBytes (r :: rs) = r.frame ++ logBytes rs := rfl

/-- The number of records of a log that end 420 bytes or more before the offset `L`. -/
def readable (rs : List LogRecord) (L : ℕ) : ℕ :=
  (List.range rs.length).countP fun j => (logBytes (rs.take (j + 1))).length + 420 ≤ L

theorem readable_cons (r : LogRecord) (rs : List LogRecord) (L : ℕ) :
    readable (r :: rs) L = if r.frame.length + 420 ≤ L then readable rs (L - r.frame.length) + 1 else 0 := by
  have hends : ∀ j, (logBytes ((r :: rs).take (j + 1))).length = r.frame.length + (logBytes (rs.take j)).length :=
    fun j => by rw [List.take_succ_cons, logBytes_cons, List.length_append]
  have hfirst : (logBytes ((r :: rs).take (0 + 1))).length = r.frame.length := hends 0
  rw [readable, List.length_cons, List.range_succ_eq_map, List.countP_cons, List.countP_map, hfirst]
  simp only [Function.comp_def, Nat.succ_eq_add_one, hends (_ + 1), decide_eq_true_eq]
  by_cases hin : r.frame.length + 420 ≤ L
  · rw [if_pos hin, if_pos hin, readable]
    refine congrArg (· + 1) (List.countP_congr fun j _ => ?_)
    simp only [decide_eq_true_eq]
    omega
  · -- Later records end later still.
    rw [if_neg hin, if_neg hin, List.countP_eq_zero.mpr]
    intro j _
    simp only [decide_eq_true_eq]
    omega

theorem readLoop_of_error {γ : Type} {readCsi : ℕ → List UInt8 → Option ℕ → Option ℕ → Option ℕ → γ} {len : ℕ}
    {s : ReaderState γ} {exit : Exit} (h : readBlock readCsi len s.cursor = .error exit) : readLoop readCsi len s = s := by
  refine iterate_of_none ?_
  simp only [readStep, h]

theorem readLoop_log (past : ℕ → ℕ → UInt8) {len : ℕ} (rs : List LogRecord) (s : ReaderState (Option MxArray))
    (hpre : s.cursor.rest <+: logBytes rs) (hpos : s.cursor.cur + s.cursor.rest.length = len)
    (hcells : s.count ≤ s.ret.length) :
    (readLoop (fun off => readCsi (past off)) len s).stored =
        s.stored ++ (rs.take (readable rs s.cursor.rest.length)).map (fun r => some r.entry) ∧
      (readLoop (fun off => readCsi (past off)) len s).count = s.count + readable rs s.cursor.rest.length := by
  induction rs generalizing s with
  | nil =>
    have hnil : s.cursor.rest = [] := List.prefix_nil.mp hpre
    have herr : readBlock (fun off => readCsi (past off)) len s.cursor = .error .endOfFile := by
      rw [readBlock, if_neg (by rw [hnil] at hpos; simp at hpos; omega)]
    rw [readLoop_of_error herr]
    simp [readable]
  | cons r rs ih =>
    rw [logBytes_cons] at hpre
    rw [readable_cons]
    by_cases hwhole : r.frame.length ≤ s.cursor.rest.length
    · obtain ⟨ys, hys⟩ := List.prefix_of_prefix_length_le (List.prefix_append _ _) hpre hwhole
      have hblock := r.readBlock_frame past len s.cursor.cur ys (by rw [hys]; exact hpos)
      rw [hys] at hblock
      by_cases hin : r.frame.length + 420 ≤ s.cursor.rest.length
      · rw [if_pos hin] at hblock
        rw [if_pos hin]
        rw [← hys, List.prefix_append_right_inj] at hpre
        obtain ⟨hstored, hlen⟩ := cellSet_of_le r.entry hcells
        have hrest : s.cursor.rest.length - r.frame.length = ys.length := by
          rw [← hys, List.length_append, Nat.add_sub_cancel_left]
        obtain ⟨ih₁, ih₂⟩ := ih ⟨⟨ys, s.cursor.cur + r.frame.length⟩, s.count + 1, cellSet s.ret s.count r.entry⟩ hpre
          (by rw [← hpos, ← hys, List.length_append]; exact Nat.add_assoc _ _ _) hlen
        rw [readLoop, iterate_of_some (readStep_of_ok hblock), hrest]
        refine ⟨ih₁.trans ?_, ih₂.trans ?_⟩
        · simp only [ReaderState.stored, hstored, List.take_succ_cons, List.map_cons, List.append_assoc,
            List.singleton_append]
        · simp only
          omega
      · rw [if_neg hin] at hblock
        rw [if_neg hin, readLoop_of_error hblock]
        simp
    · have hpart : s.cursor.rest <+: r.frame :=
        List.prefix_of_prefix_length_le hpre (List.prefix_append _ _) (by omega)
      obtain ⟨exit, herr⟩ := r.readBlock_part past hpart (by omega) hpos
      rw [if_neg (by omega), readLoop_of_error herr]
      simp

section FrontPart
variable (past : ℕ → ℕ → UInt8) {rs : List LogRecord} {file : List UInt8} (hfile : file <+: logBytes rs)
include hfile

theorem readLoop_file :
    (readLoop (fun off => readCsi (past off)) file.length (readStart _ file)).stored =
        (rs.take (readable rs file.length)).map (fun r => some r.entry) ∧
      (readLoop (fun off => readCsi (past off)) file.length (readStart _ file)).count = readable rs file.length := by
  obtain ⟨hstored, hcount⟩ := readLoop_log past rs (readStart _ file) hfile (Nat.zero_add _) (Nat.zero_le _)
  exact ⟨hstored, hcount.trans (Nat.zero_add _)⟩

theorem readLogFile_of_readable (h : 1 ≤ readable rs file.length) :
    readLogFile (fun off => readCsi (past off)) file =
      .ok ((rs.take (max 1 (readable rs file.length - 1))).map fun r => some r.entry) := by
  obtain ⟨hstored, hcount⟩ := readLoop_file past hfile
  have hmax : max 1 (readable rs file.length - 1) ≤ readable rs file.length := Nat.max_le.mpr ⟨h, Nat.sub_le _ _⟩
  rw [readLogFile_of_stored (by rw [hcount]; exact h), hstored, hcount, ← List.map_take, List.take_take,
    Nat.min_eq_left hmax]

theorem readLogFile_of_not_readable (h : readable rs file.length = 0) {xs : List (Option (LogEntry (Option MxArray)))}
    (hxs : readLogFile (fun off => readCsi (past off)) file = .ok xs) : xs = [none] :=
  readLogFile_of_not_stored ((readLoop_file past hfile).2.trans h) hxs

end FrontPart

/-- From a front part of a log with a readable record, `read_log_file` returns the readable records but the
    last, and at least one, each as it was logged. From one without, it returns no record. -/
theorem readLogFile_truncated (past : ℕ → ℕ → UInt8) (rs : List LogRecord) (file : List UInt8)
    (hfile : file <+: logBytes rs) :
    (1 ≤ readable rs file.length →
      readLogFile (fun off => readCsi (past off)) file =
        .ok ((rs.take (max 1 (readable rs file.length - 1))).map fun r => some r.entry)) ∧
    (readable rs file.length = 0 →
      ∀ xs, readLogFile (fun off => readCsi (past off)) file = .ok xs → ∀ e ∈ xs, e = none) := by
  refine ⟨readLogFile_of_readable past hfile, fun h0 xs hxs e he => ?_⟩
  rw [readLogFile_of_not_readable past hfile h0 hxs] at he
  exact List.mem_singleton.mp he

def plainRecord (n : ℕ) (h : n ≤ 1500) : LogRecord where
  toStatus := ⟨0, 0, 0, 0, 0, 0, 0, 0, 0, 0, 0, 0, 0⟩
  csi := []
  payload := List.replicate n 0
  csi_le := by decide
  payload_le := by simpa using h
  tstamp_lt := by decide
  csi_dims := Or.inl rfl

/-- One antenna on each side, one tone, and one byte of payload. -/
def csiRecord : LogRecord where
  toStatus := ⟨7, 2437, 0, 0, 0x8b, 0, 1, 1, 1, 40, 40, 0, 0⟩
  csi := [0xfc, 0x0f, 0x00]
  payload := [0x5a]
  csi_le := by decide
  payload_le := by decide
  tstamp_lt := by decide
  csi_dims := Or.inr (by decide)

/-- Of two records, the second with 400 bytes of payload and cut short by seven bytes, the first comes back, with the
    entry of its matrix. -/
theorem readLogFile_truncated_two :
    ((logBytes [csiRecord, plainRecord 400 (by decide)]).take 451 <+: logBytes [csiRecord, plainRecord 400 (by decide)]) ∧
    readLogFile (fun _ => readCsi fun _ => 0xff) ((logBytes [csiRecord, plainRecord 400 (by decide)]).take 451) =
      .ok [some csiRecord.entry] ∧
    csiRecord.entry.csi = .array (some ⟨1, 1, 1, [3], [-4]⟩) := by
  have hone : readable [csiRecord, plainRecord 400 (by decide)]
      ((logBytes [csiRecord, plainRecord 400 (by decide)]).take 451).length = 1 := by decide +kernel
  have hread := (readLogFile_truncated (fun _ _ => 0xff) _ _ (List.take_prefix 451 _)).1 hone.ge
  rw [hone] at hread
  exact ⟨List.take_prefix _ _, hread, by decide +kernel⟩

end AtherosCsi
