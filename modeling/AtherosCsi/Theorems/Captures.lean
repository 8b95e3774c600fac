import AtherosCsi.RecvScript
import AtherosCsi.Theorems.FftMean
import AtherosCsi.Theorems.LogRoundTrip
import AtherosCsi.Theorems.Traces

/-! From the device to the scripts that evaluate a measurement. The receiver always ends by a signal, so its file is a
    front part of what it has written, and the scripts work on the records that `read_log_file` finds there. What they
    make of them is what the device has measured. -/

namespace AtherosCsi
open LittleEndian MatArray Loop Sql Scanf

/-! ### What the device sends -/

/-- The receiver stays inside its arrays, whatever its buffer held before. -/
theorem Content.packetInRange (x : Content) (buf : BufAddr) :
    PacketInRange true (buf.overlay (x.record.packet (UInt16.ofNat x.record.len)))
      (x.record.packet (UInt16.ofNat x.record.len)).length := by
  have hlen := x.record.len_le
  have hst := x.record.statusAt_packet (UInt16.ofNat x.record.len) Host.x86 buf
  rw [DeviceRecord.length_packet]
  generalize CArray.overlay buf (x.record.packet (UInt16.ofNat x.record.len)) = packed at hst
  have hcsiLen : BufAddr.short packed 8 = UInt16.ofNat x.record.csi.length := congrArg CsiStruct.csiLen hst
  have hpayloadLen : BufAddr.short packed 23 = UInt16.ofNat x.record.payload.length := congrArg CsiStruct.payloadLen hst
  have hbufLen : BufAddr.short packed (x.record.len + 2 - 2) = UInt16.ofNat x.record.len := congrArg CsiStruct.bufLen hst
  have hnr : BufAddr.byte packed 17 = x.nr := congrArg CsiStruct.nr hst
  have hnc : BufAddr.byte packed 18 = x.nc := congrArg CsiStruct.nc hst
  have hnt : BufAddr.byte packed 16 = x.numTones := congrArg CsiStruct.numTones hst
  refine ⟨Nat.le_add_left 2 _, ?_, ?_, fun _ => ?_⟩
  · have hpayload : x.record.payload.length ≤ 1500 := x.payload_le
    have hcsi := x.record.csi_le
    rw [hcsiLen, hpayloadLen, x.record.csiLen_toNat, x.record.payloadLen_toNat]
    exact ⟨hpayload, .inr (by omega)⟩
  · rw [hnr, hnc, hnt]
    exact DimsFit.of_le ⟨x.nr_le, x.nc_le, x.numTones_le⟩
  · rw [hbufLen, x.record.len_toNat]
    exact Nat.le_trans hlen (by decide)

/-- The content of a record for the log: its time stamp is exact as a double. -/
structure LogContent extends Content where
  tstamp_lt : tstamp.toNat < 2 ^ 53

namespace LogContent
variable (x : LogContent)

/-- A record with CSI has an entry. -/
theorem dims_of_csi (hcsi : x.record.csi ≠ []) : 1 ≤ x.nr.toNat ∧ 1 ≤ x.nc.toNat ∧ 1 ≤ x.numTones.toNat := by
  by_contra hzero
  refine hcsi (List.eq_nil_of_length_eq_zero ?_)
  rw [x.length_record_csi, Content.csiLen_eq]
  have hno : x.numTones.toNat * x.nc.toNat * x.nr.toNat = 0 := by
    rw [Nat.mul_eq_zero, Nat.mul_eq_zero]
    omega
  rw [hno]

def logRecord : LogRecord where
  toDeviceRecord := x.record
  tstamp_lt := x.tstamp_lt
  csi_dims := by
    refine or_iff_not_imp_left.mpr fun hcsi => ?_
    obtain ⟨hnr, hnc, hnt⟩ := x.dims_of_csi hcsi
    exact ⟨⟨hnr, x.nr_le⟩, ⟨hnc, x.nc_le⟩, ⟨hnt, x.numTones_le⟩, x.length_record_csi⟩

/-- The CSI as the scripts should see it: the entries, or the number 0 for a packet without. -/
def array : Array3 (ℤ × ℤ) :=
  if x.record.csi = [] then .scalar 0
  else ⟨x.nr.toNat, x.nc.toNat, x.numTones.toNat, fun r c k => ((x.entry r c k).real, (x.entry r c k).imag)⟩

theorem csiArray_elem {r c k : ℕ} (hr : r < x.nr.toNat) (hc : c < x.nc.toNat) (hk : k < x.numTones.toNat) :
    (x.logRecord.csiArray.pr[x.logRecord.csiArray.index r c k]?.getD 0,
      x.logRecord.csiArray.pi[x.logRecord.csiArray.index r c k]?.getD 0) = ((x.entry r c k).real, (x.entry r c k).imag) := by
  have hindex : x.logRecord.csiArray.index r c k = (k * x.nc.toNat + c) * x.nr.toNat + r := by
    rw [MxArray.index, show x.logRecord.csiArray.nr = x.nr.toNat from rfl, show x.logRecord.csiArray.nc = x.nc.toNat from rfl]
    ring
  have hlt : (k * x.nc.toNat + c) * x.nr.toNat + r < x.logRecord.entries := (entry_lt_iff hr hc).mpr hk
  have himag := x.chunk_record [] ((x.getElem?_parts hr hc hk Nat.two_pos).trans rfl)
  have hreal := x.chunk_record [] ((x.getElem?_parts hr hc hk Nat.one_lt_two).trans rfl)
  rw [List.append_nil] at himag hreal
  have hpr : x.logRecord.csiArray.pr[(k * x.nc.toNat + c) * x.nr.toNat + r]? = some (x.entry r c k).real := by
    rw [LogRecord.csiArray, List.getElem?_map, List.getElem?_range hlt]
    exact congrArg some (toInt_part (x.entry r c k).real_mem hreal)
  have hpi : x.logRecord.csiArray.pi[(k * x.nc.toNat + c) * x.nr.toNat + r]? = some (x.entry r c k).imag := by
    rw [LogRecord.csiArray, List.getElem?_map, List.getElem?_range hlt]
    exact congrArg some (toInt_part (x.entry r c k).imag_mem himag)
  rw [hindex, hpr, hpi, Option.getD_some, Option.getD_some]

/-- Through the log, the reader and the unpacker, the scripts get what the device has measured. -/
theorem csiDataOf_traced : csiDataOf x.logRecord.traced = x.array := by
  by_cases hcsi : x.record.csi = []
  · have htraced : x.logRecord.traced.csi = .zero := if_pos hcsi
    rw [csiDataOf, htraced, array, if_pos hcsi]
  · have htraced : x.logRecord.traced.csi = .array x.logRecord.csiArray.toArray3 := if_neg hcsi
    rw [csiDataOf, htraced, array, if_neg hcsi]
    refine congrArg (Array3.mk _ _ _) (funext fun r => funext fun c => funext fun k => ?_)
    exact x.csiArray_elem r.isLt c.isLt k.isLt

/-! ### One packet -/

/-- A read of the packet adds the frame of the record to the log. -/
theorem exists_recvStep {h : Host} (hh : h.byteOrder = .little) (s : RecvState) :
    ∃ t, recvStep h true s x.logRecord.outcome = some t ∧ t.file = s.file ++ x.logRecord.frame := by
  have hin : InRange true s.bufAddr x.logRecord.outcome := x.packetInRange s.bufAddr
  obtain ⟨t, ht⟩ := Option.isSome_iff_exists.mp ((recvStep_isSome_iff h true s _).mpr hin)
  exact ⟨t, ht, x.logRecord.recvStep_file hh ht⟩

end LogContent

/-! ### One receiver -/

/-- The device reports the packets `xs`. In between it may stay silent, and the library may bring bytes to the disk. -/
inductive Reports : List LogContent → List RecvEvent → Prop
  | nil : Reports [] []
  | packet (x : LogContent) {xs : List LogContent} {es : List RecvEvent} (h : Reports xs es) :
      Reports (x :: xs) (.read x.logRecord.outcome :: es)
  | silence {xs : List LogContent} {es : List RecvEvent} (h : Reports xs es) : Reports xs (.read .timeout :: es)
  | flush (n : ℕ) {xs : List LogContent} {es : List RecvEvent} (h : Reports xs es) : Reports xs (.flush n :: es)

def recordsOf (xs : List LogContent) : List LogRecord := xs.map LogContent.logRecord

theorem RecvProcess.run_cons (h : Host) (logFlag : Bool) (p : RecvProcess) (e : RecvEvent) (es : List RecvEvent) :
    p.run h logFlag (e :: es) = (p.step h logFlag e).bind fun q => q.run h logFlag es := List.foldlM_cons

theorem RecvProcess.run_reports {h : Host} (hh : h.byteOrder = .little) {xs : List LogContent} {es : List RecvEvent}
    (hes : Reports xs es) (p : RecvProcess) :
    ∃ t, p.run h true es = some t ∧ t.recv.file = p.recv.file ++ logBytes (recordsOf xs) := by
  induction hes generalizing p with
  | nil => exact ⟨p, rfl, (List.append_nil _).symm⟩
  | packet x _ ih =>
    obtain ⟨r, hr, hfile⟩ := x.exists_recvStep hh p.recv
    obtain ⟨t, ht, hlog⟩ := ih { p with recv := r }
    refine ⟨t, ?_, ?_⟩
    · rw [run_cons, step, hr]
      exact ht
    · rw [hlog, hfile, List.append_assoc]
      rfl
  | silence _ ih =>
    obtain ⟨t, ht, hlog⟩ := ih { p with recv := { p.recv with bufAddr := p.recv.bufAddr } }
    refine ⟨t, ?_, hlog⟩
    rw [run_cons]
    exact ht
  | flush n _ ih =>
    obtain ⟨t, ht, hlog⟩ := ih { p with flushed := min (p.flushed + n) p.recv.file.length }
    refine ⟨t, ?_, hlog⟩
    rw [run_cons]
    exact ht

/-- Reading brings nothing to the disk. -/
theorem RecvProcess.run_reads {h : Host} {logFlag : Bool} {os : List ReadOutcome} {p t : RecvProcess}
    (ht : p.run h logFlag (os.map RecvEvent.read) = some t) : t.flushed = p.flushed := by
  induction os generalizing p with
  | nil =>
    cases ht
    rfl
  | cons o os ih =>
    rw [List.map_cons, run_cons] at ht
    obtain ⟨q, hq, hrest⟩ := Option.bind_eq_some_iff.mp ht
    obtain ⟨r, -, rfl⟩ := Option.map_eq_some_iff.mp hq
    exact (ih hrest).trans rfl

/-- A run of the receiver that gets to its loop: the file descriptor, what `malloc` gives it for `csi_status`, the
    packets and what happens until the signal. -/
structure Capture where
  fd : ℕ
  csiStatus : CsiStruct
  contents : List LogContent
  events : List RecvEvent
  reports : Reports contents events

namespace Capture
variable (c : Capture)

def run : FileStartup × List RecvEvent := (⟨true, c.fd, c.csiStatus⟩, c.events)

/-- The file on the disk when the receiver has been ended. -/
def file (h : Host) : List UInt8 := (recvFileMain h 2 c.run.1 c.run.2).join.getD []

/-- The process when it enters its loop. -/
def start : RecvProcess := ⟨⟨BufAddr.zero, DataBuf.zero, CsiMatrix.zero, c.csiStatus, []⟩, 0⟩

theorem recvFileMain_eq {h : Host} {t : RecvProcess} (ht : c.start.run h true c.events = some t) :
    recvFileMain h 2 c.run.1 c.run.2 = some (some t.disk) ∧ c.file h = t.disk := by
  have hfd : ¬ (c.fd : ℤ) < 0 := Int.not_lt.mpr (Int.natCast_nonneg _)
  rw [start] at ht
  have hmain : recvFileMain h 2 c.run.1 c.run.2 = some (some t.disk) := by
    simp only [recvFileMain, run, Bool.true_eq_false, and_false, gt_iff_lt, Nat.lt_irrefl, hfd, if_false, if_true,
      decide_true, ht]
    rfl
  refine ⟨hmain, ?_⟩
  rw [file, hmain]
  rfl

/-- The receiver leaves a front part of the log of all packets. -/
theorem recvFileMain_run {h : Host} (hh : h.byteOrder = .little) :
    recvFileMain h 2 c.run.1 c.run.2 = some (some (c.file h)) ∧ c.file h <+: logBytes (recordsOf c.contents) := by
  obtain ⟨t, ht, hfile⟩ := RecvProcess.run_reports hh c.reports c.start
  obtain ⟨hmain, hdisk⟩ := c.recvFileMain_eq ht
  rw [hdisk, RecvProcess.disk, hfile]
  refine ⟨?_, List.take_prefix _ _⟩
  rw [hmain, RecvProcess.disk, hfile]

/-- Where the library flushes only once, at the end, the file is what it has flushed. -/
theorem file_of_flush {h : Host} (hh : h.byteOrder = .little) (os : List ReadOutcome)
    (hos : Reports c.contents (os.map RecvEvent.read)) {n : ℕ} (hlast : c.events = os.map RecvEvent.read ++ [.flush n]) :
    c.file h = (logBytes (recordsOf c.contents)).take n := by
  obtain ⟨t, ht, hfile⟩ := RecvProcess.run_reports hh hos c.start
  have hflushed : t.flushed = 0 := RecvProcess.run_reads ht
  have hrun : c.start.run h true c.events = some { t with flushed := min (t.flushed + n) t.recv.file.length } := by
    rw [RecvProcess.run] at ht ⊢
    rw [hlast, List.foldlM_append, ht]
    rfl
  have hall : t.recv.file = logBytes (recordsOf c.contents) := hfile
  rw [(c.recvFileMain_eq hrun).2, RecvProcess.disk, hall, hflushed, Nat.zero_add, ← List.take_eq_take_min]

end Capture

/-! ### The script -/

theorem decimal_natCast (n : ℕ) : decimal n = num2str n := by
  rw [decimal, if_neg (Int.not_lt.mpr (Int.natCast_nonneg n)), Int.natAbs_natCast]
  rfl

theorem captureName_inj {name : List Char} {i j : ℕ} (h : captureName name i = captureName name j) : i = j := by
  have hdigits := (List.cons.inj (List.append_cancel_left h)).2
  rw [decimal_natCast, decimal_natCast] at hdigits
  exact num2str_inj hdigits

/-- `recv.sh` and `test_fft_mean.m` name the files alike. -/
theorem sampleFile_eq {name : List Char} (hname : ∀ c ∈ name, isSpace c = false) (i : ℕ) :
    sampleFile name i = captureName name i := by
  have hdrop : name.rdropWhile isSpace = name := by
    rw [List.rdropWhile_eq_self_iff]
    intro hne
    rw [hname _ (List.getLast_mem hne)]
    exact Bool.false_ne_true
  rw [sampleFile, strcat_append, strcat_append, strcat_append, rdropWhile_num2str, hdrop, captureName, decimal_natCast]
  simp [strcat, isSpace, List.rdropWhile_singleton]

/-- Each round of the script leaves a file under a name of its own, which later rounds do not touch. -/
theorem recvScript_files {h : Host} (hh : h.byteOrder = .little) (n : ℕ) (name : List Char) (captures : ℕ → Capture) (fs : Files) :
    ∃ fs', recvScript h n name (fun i => (captures i).run) fs = some fs' ∧
      ∀ i ∈ List.range' 1 n, fs' (captureName name i) = some ((captures i).file h) := by
  let P : List ℕ → Files → Prop := fun pre fs' => ∀ i ∈ pre, fs' (captureName name i) = some ((captures i).file h)
  refine foldlM_rule (P := P) (List.forall_mem_nil _) fun pre i fs _ hP => ?_
  refine ⟨Function.update fs (captureName name i) (some ((captures i).file h)), ?_, fun j hj => ?_⟩
  · rw [((captures i).recvFileMain_run hh).1]
    rfl
  · rcases List.mem_append.mp hj with hold | hlast
    · by_cases hij : j = i
      · rw [hij, Function.update_self]
      · rw [Function.update_of_ne fun hname => hij (captureName_inj hname), hP j hold]
    · rw [List.mem_singleton.mp hlast, Function.update_self]

/-! ### What the scripts see -/

/-- `read_log_file` returns the readable records but the last, and at least one. -/
def Capture.seen (h : Host) (c : Capture) : List LogContent :=
  c.contents.take (max 1 (readable (recordsOf c.contents) (c.file h).length - 1))

theorem Capture.readTrace_eq {h : Host} (hh : h.byteOrder = .little) (past : List Char → ℕ → ℕ → UInt8) {c : Capture} {fs : Files}
    {path : List Char} (hfile : fs path = some (c.file h)) (hread : 1 ≤ readable (recordsOf c.contents) (c.file h).length) :
    readTrace past fs path = some ((c.seen h).map fun x => x.logRecord.traced) := by
  obtain ⟨csi, htrace, hcsi, -⟩ := traceOf_readLogFile (past path) _ _ (c.recvFileMain_run hh).2 hread
  rw [readTrace, hfile, Option.bind_eq_bind, Option.bind_some, htrace, hcsi, recordsOf, ← List.map_take, List.map_map]
  rfl

/-- A packet with CSI from three by three antennas and so many tones. -/
def LogContent.Complete (tones : ℕ) (x : LogContent) : Prop := x.nr.toNat = 3 ∧ x.nc.toNat = 3 ∧ x.numTones.toNat = tones

instance (tones : ℕ) (x : LogContent) : Decidable (x.Complete tones) := inferInstanceAs (Decidable (_ ∧ _))

theorem LogContent.kept_traced_iff {tones : ℕ} (htones : 1 ≤ tones) (x : LogContent) :
    Kept tones x.logRecord.traced ↔ x.Complete tones := by
  unfold Kept
  rw [x.csiDataOf_traced, array]
  split
  · rename_i hcsi
    refine iff_of_false (fun h => absurd h.2.1 (by decide : (Array3.scalar (0 : ℤ × ℤ)).rows ≠ 3)) ?_
    rintro ⟨hnr, hnc, hnt⟩
    have hlen := x.length_record_csi
    rw [hcsi, Content.csiLen_eq, hnr, hnc, hnt, List.length_nil] at hlen
    omega
  · exact ⟨fun h => ⟨h.2.1, h.2.2, h.1⟩, fun h => ⟨h.2.2, h.1, h.2.1⟩⟩

/-- What `subcarrier_pertime` keeps. -/
def Capture.complete (h : Host) (tones : ℕ) (c : Capture) : List LogContent := (c.seen h).filter (·.Complete tones)

/-- The file has a record for the scripts, the first of all packets has so many tones, and one is complete. -/
structure Capture.Usable (h : Host) (tones : ℕ) (c : Capture) : Prop where
  readable : 1 ≤ readable (recordsOf c.contents) (c.file h).length
  first : (c.contents.head?.map fun x => x.numTones.toNat) = some tones
  complete : c.complete h tones ≠ []

theorem Capture.kept_seen {h : Host} {tones : ℕ} (htones : 1 ≤ tones) {c : Capture}
    (hfirst : (c.contents.head?.map fun x => x.numTones.toNat) = some tones) :
    kept ((c.seen h).map fun x => x.logRecord.traced) = (c.complete h tones).map fun x => x.logRecord.traced := by
  obtain ⟨x, hx, hnt⟩ := Option.map_eq_some_iff.mp hfirst
  have hhead : (c.seen h).head? = some x := by
    rw [seen, List.head?_take, if_neg (by omega), hx]
  have hnum : ((c.seen h).map fun x => x.logRecord.traced).head?.bind (·.numTones) = some tones := by
    rw [List.head?_map, hhead, Option.map_some, Option.bind_some, ← hnt]
    rfl
  rw [kept, hnum]
  simp only
  rw [List.filter_map, complete]
  refine congrArg (List.map _) (List.filter_congr fun x _ => ?_)
  exact decide_eq_decide.mpr (x.kept_traced_iff htones)

/-- Three by three antennas and two tones, with a payload of 410 bytes. -/
def smallContent : LogContent where
  toStatus := ⟨1, 0, 0, 0, 0, 0, 2, 3, 3, 0, 0, 0, 0⟩
  entry _ _ k := ⟨k % 512, -7, by omega, by decide⟩
  payload := List.replicate 410 0
  nr_le := by decide
  nc_le := by decide
  numTones_le := by decide
  payload_le := List.length_replicate.trans_le (by decide)
  tstamp_lt := by decide

def smallCapture : Capture where
  fd := 3
  csiStatus := CsiStruct.zero
  contents := [smallContent, smallContent]
  events := [smallContent.logRecord.outcome, .timeout, smallContent.logRecord.outcome].map RecvEvent.read ++ [.flush 950]
  reports := .packet _ (.silence (.packet _ (.flush 950 .nil)))

/-- The last bytes of the second packet are lost. -/
theorem smallCapture_cut : (smallCapture.file Host.x86).length = 950 ∧
    (logBytes (recordsOf smallCapture.contents)).length = 964 ∧
    readable (recordsOf smallCapture.contents) (smallCapture.file Host.x86).length = 1 := by
  have hlog : (logBytes (recordsOf [smallContent, smallContent])).length = 964 := by decide +kernel
  have hlen : (smallCapture.file Host.x86).length = 950 := by
    rw [smallCapture.file_of_flush rfl [smallContent.logRecord.outcome, .timeout, smallContent.logRecord.outcome]
      (.packet _ (.silence (.packet _ .nil))) rfl, List.length_take,
      show smallCapture.contents = [smallContent, smallContent] from rfl, hlog]
    rfl
  refine ⟨hlen, hlog, ?_⟩
  rw [hlen]
  decide +kernel

theorem seen_smallCapture : smallCapture.seen Host.x86 = [smallContent] := by
  rw [Capture.seen, smallCapture_cut.2.2]
  rfl

theorem smallCapture_usable : smallCapture.Usable Host.x86 2 := by
  refine ⟨smallCapture_cut.2.2.ge, rfl, ?_⟩
  rw [Capture.complete, seen_smallCapture, List.filter_cons_of_pos (by decide)]
  exact List.cons_ne_nil _ _

/-! ### All streams of a capture -/

/-- Packets with the same antennas have the same number of tones. -/
def Capture.SameTones (h : Host) (c : Capture) : Prop :=
  ∀ x ∈ c.seen h, ∀ y ∈ c.seen h, x.array.rows = y.array.rows → x.array.cols = y.array.cols → x.array.pages = y.array.pages

section Streams
variable {h : Host} (hh : h.byteOrder = .little) (past : ℕ → ℕ → UInt8) (c : Capture)

include hh

end Streams

/-- A pair of antennas in the complete packets of a capture, as a packets by tones matrix. -/
def Capture.tones (h : Host) (tones rx tx : ℕ) (c : Capture) : List (List (ℤ × ℤ)) :=
  (c.complete h tones).map fun x => x.array.line rx tx

theorem Capture.sampleOf_eq {h : Host} (hh : h.byteOrder = .little) (past : List Char → ℕ → ℕ → UInt8) {fs : Files}
    {name : List Char} (hname : ∀ c ∈ name, isSpace c = false) {c : Capture} {i tones : ℕ}
    (hfile : fs (captureName name i) = some (c.file h)) (hc : c.Usable h tones) (htones : 2 ≤ tones) {rx tx : ℕ}
    (hrx : 1 ≤ rx ∧ rx ≤ 3) (htx : 1 ≤ tx ∧ tx ≤ 3) :
    ∃ a, sampleOf (readTrace past fs) name rx tx i = some a ∧ a.cols = tones ∧ a.rows = c.tones h tones rx tx := by
  have hpath : fs (sampleFile name i) = some (c.file h) := by rw [sampleFile_eq hname, hfile]
  have htrace := c.readTrace_eq hh past hpath hc.readable
  have hkept := kept_seen (h := h) (Nat.le_of_succ_le htones) hc.first
  have hne : kept ((c.seen h).map fun x => x.logRecord.traced) ≠ [] := by
    rw [hkept]
    exact fun hnil => hc.complete (List.map_eq_nil_iff.mp hnil)
  have hrows : toneRows ((c.seen h).map fun x => x.logRecord.traced) rx tx = c.tones h tones rx tx := by
    rw [toneRows, hkept, List.map_map]
    exact List.map_congr_left fun x _ => congrArg (Array3.line · rx tx) x.csiDataOf_traced
  obtain ⟨s, hs⟩ := exists_subcarrierPertime hne
  have hpages : s.pages = tones := by
    obtain ⟨e, he⟩ := List.exists_mem_of_ne_nil _ hne
    rw [← pages_of_mem_kept hs he]
    rw [hkept] at he
    obtain ⟨x, hx, rfl⟩ := List.mem_map.mp he
    exact ((x.kept_traced_iff (Nat.le_of_succ_le htones)).mpr (of_decide_eq_true (List.mem_filter.mp hx).2)).1
  obtain ⟨a, ha, hcols, hall⟩ := lines?_subcarrierPertime hs hrx htx (hpages.symm ▸ htones)
  exact ⟨a, by simp only [sampleOf, htrace, hs, ha, Option.bind_eq_bind, Option.bind_some], hcols.trans hpages, hall.trans hrows⟩

/-! ### An experiment -/

/-- `recv.sh` makes `n` captures, and `test_fft_mean` stacks them. Whatever the signals have left of the files, slice `i`
    holds what the device has measured in round `i + 1`, up to the length of the shortest. -/
theorem experiment_stacked {h : Host} (hh : h.byteOrder = .little) (past : List Char → ℕ → ℕ → UInt8) {n : ℕ} (hn : 1 ≤ n)
    {name : List Char} (hname : ∀ c ∈ name, isSpace c = false) (captures : ℕ → Capture) (fs : Files) {tones : ℕ}
    (htones : 2 ≤ tones) (husable : ∀ i ∈ List.range' 1 n, (captures i).Usable h tones) {rx tx : ℕ}
    (hrx : 1 ≤ rx ∧ rx ≤ 3) (htx : 1 ≤ tx ∧ tx ≤ 3) :
    ∃ fs' m x, recvScript h n name (fun i => (captures i).run) fs = some fs' ∧
      IsLeast {k | ∃ i < n, ((captures (i + 1)).complete h tones).length = k} m ∧
      testFftMean (readTrace past fs') name n rx tx = some x ∧
      x.height = m ∧ x.width = tones ∧ x.slices.length = n ∧
      ∀ i < n, ∃ a, x.slices[i]? = some a ∧ a.rows = ((captures (i + 1)).tones h tones rx tx).take m := by
  obtain ⟨fs', hscript, hfiles⟩ := recvScript_files hh n name captures fs
  have hmem : ∀ i < n, i + 1 ∈ List.range' 1 n := fun i hi => List.mem_range'_1.mpr ⟨Nat.le_add_left 1 i, by omega⟩
  have hsample : ∀ i < n, ∃ a, sampleOf (readTrace past fs') name rx tx (i + 1) = some a ∧ a.cols = tones ∧
      a.rows = (captures (i + 1)).tones h tones rx tx := fun i hi =>
    (captures (i + 1)).sampleOf_eq hh past hname (hfiles _ (hmem i hi)) (husable _ (hmem i hi)) htones hrx htx
  have hlength : ∀ i, ((captures (i + 1)).tones h tones rx tx).length = ((captures (i + 1)).complete h tones).length := fun i =>
    List.length_map _
  obtain ⟨s, m, samples, hs, hstack⟩ := fft_loop hn (by omega) hsample
  obtain ⟨x, hx, hheight, hwidth, hslices⟩ := Slices.takeRows?_of_le hstack.le_height
  refine ⟨fs', m, x, hscript, ⟨?_, ?_⟩, ?_, hheight, hwidth.trans hstack.width,
    by rw [hslices, List.length_map, hstack.length_eq], fun i hi => ?_⟩
  · obtain ⟨i, hi, hm⟩ := hstack.attained
    exact ⟨i, hi, (hlength i).symm.trans hm⟩
  · rintro k ⟨i, hi, rfl⟩
    exact (hstack.le i hi).trans_eq (hlength i)
  · rw [testFftMean, hs]
    simp only [Option.bind_eq_bind, Option.bind_some, hstack.samplesData, hstack.lastIndex, Int.toNat_natCast, hx]
  · obtain ⟨a, ha, hsame⟩ := hstack.slice i hi
    exact ⟨a.takeRows m, by rw [hslices, List.getElem?_map, ha, Option.map_some], hsame⟩

theorem experiment_stacked_two : ∃ fs' m x,
    recvScript Host.x86 2 "walk".toList (fun _ => smallCapture.run) (fun _ => none) = some fs' ∧
      IsLeast {k | ∃ i < 2, (smallCapture.complete Host.x86 2).length = k} m ∧
      testFftMean (readTrace (fun _ _ _ => 0xff) fs') "walk".toList 2 1 3 = some x ∧
      x.height = m ∧ x.width = 2 ∧ x.slices.length = 2 ∧
      ∀ i < 2, ∃ a, x.slices[i]? = some a ∧ a.rows = (smallCapture.tones Host.x86 2 1 3).take m :=
  experiment_stacked rfl _ (by decide) (by simp [isSpace]) (fun _ => smallCapture) _ (by decide) (fun _ _ => smallCapture_usable)
    (by decide) (by decide)

end AtherosCsi
