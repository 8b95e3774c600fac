import AtherosCsi.RecvToFile
import AtherosCsi.Theorems.Decode

/-! When the file receiver stays inside its arrays. The lengths that a packet carries bound what the loop
    reads and writes, and the loop checks none of them: it stays in range exactly as long as every packet
    does, and one failed read of the device leads it out. -/

namespace AtherosCsi

/-- The conditions that a packet must meet, on the buffer as the read leaves it. -/
structure PacketInRange (logFlag : Bool) (buf : BufAddr) (cnt : ℕ) : Prop where
  cnt_ge : 2 ≤ cnt
  payload : PayloadFits (buf.short 8).toNat (buf.short 23).toNat
  dims : DimsFit (buf.byte 17).toNat (buf.byte 18).toNat (buf.byte 16).toNat
  logged : logFlag = true → (buf.short (cnt - 2)).toNat ≤ 4096

def InRange (logFlag : Bool) (buf : BufAddr) : ReadOutcome → Prop
  | .error => False
  | .timeout => True
  | .packet bytes _ => PacketInRange logFlag (buf.overlay bytes) bytes.length

/-- What the device may give round after round, each time to the buffer that the reads before have left. -/
def AllInRange (logFlag : Bool) : BufAddr → List ReadOutcome → Prop
  | _, [] => True
  | buf, o :: os => InRange logFlag buf o ∧ AllInRange logFlag (readCsiBuf buf o).2 os

theorem logPacket_isSome_iff (h : Host) (logFlag : Bool) (buf : BufAddr) (bufLen : UInt16) :
    (logPacket h logFlag buf bufLen).isSome ↔ (logFlag = true → bufLen.toNat ≤ 4096) := by
  cases logFlag with
  | false => simp [logPacket]
  | true =>
    simp only [logPacket, if_true, true_implies, CArray.first?]
    split
    · simpa
    · simpa using ‹¬ bufLen.toNat ≤ 4096›

theorem recvPacket_eq_some {h : Host} {logFlag : Bool} {s t : RecvState} {cnt : ℤ} {buf : BufAddr}
    (ht : recvPacket h logFlag s cnt buf = some t) :
    recordStatus h buf cnt s.csiStatus = some t.csiStatus ∧
    recordCsiPayload buf t.csiStatus s.dataBuf s.csiMatrix = some (t.dataBuf, t.csiMatrix) ∧
    (∃ logged, logPacket h logFlag buf t.csiStatus.bufLen = some logged ∧ t.file = s.file ++ logged) ∧
    t.bufAddr = buf := by
  obtain ⟨st, hst, ht⟩ := Option.bind_eq_some_iff.mp ht
  obtain ⟨⟨data, m⟩, hpay, ht⟩ := Option.bind_eq_some_iff.mp ht
  obtain ⟨logged, hlog, ht⟩ := Option.bind_eq_some_iff.mp ht
  cases ht
  exact ⟨hst, hpay, ⟨logged, hlog, rfl⟩, rfl⟩

theorem recvPacket_isSome_iff {h : Host} {logFlag : Bool} {s : RecvState} {buf : BufAddr} {cnt : ℕ} (hcnt : cnt ≤ 4096) :
    (recvPacket h logFlag s cnt buf).isSome ↔ PacketInRange logFlag buf cnt := by
  constructor
  · intro hsome
    obtain ⟨t, ht⟩ := Option.isSome_iff_exists.mp hsome
    obtain ⟨hst, hpay, ⟨logged, hlog, -⟩, -⟩ := recvPacket_eq_some ht
    have hge : 2 ≤ cnt := by
      have := recordStatus_range hst
      omega
    rw [recordStatus_eq h buf cnt hge hcnt] at hst
    rw [← Option.some.inj hst] at hpay hlog
    obtain ⟨hfits, hdims⟩ := recordCsiPayload_range hpay
    exact ⟨hge, hfits, hdims, (logPacket_isSome_iff _ _ _ _).mp (Option.isSome_iff_exists.mpr ⟨_, hlog⟩)⟩
  · intro hin
    obtain ⟨logged, hlog⟩ := Option.isSome_iff_exists.mp
      ((logPacket_isSome_iff h logFlag buf (statusAt h buf cnt).bufLen).mpr hin.logged)
    simp only [recvPacket, recordStatus_eq h buf cnt hin.cnt_ge hcnt, Option.bind_eq_bind, Option.bind_some,
      recordCsiPayload_eq buf (statusAt h buf cnt) hin.payload hin.dims, hlog]
    rfl

theorem recvStep_error (h : Host) (logFlag : Bool) (s : RecvState) : recvStep h logFlag s .error = none := by
  cases hst : recvPacket h logFlag s (-1) s.bufAddr with
  | none => simp [recvStep, readCsiBuf, hst]
  | some t =>
    obtain ⟨hst, -⟩ := recvPacket_eq_some hst
    have := recordStatus_range hst
    omega

theorem recvStep_isSome_iff (h : Host) (logFlag : Bool) (s : RecvState) (o : ReadOutcome) :
    (recvStep h logFlag s o).isSome ↔ InRange logFlag s.bufAddr o := by
  cases o with
  | error => simp [recvStep_error, InRange]
  | timeout => simp [recvStep, readCsiBuf, InRange]
  | packet bytes hb =>
    have hcnt : (bytes.length : ℤ) ≠ 0 := by omega
    simp only [recvStep, readCsiBuf, ne_eq, hcnt, not_false_eq_true, if_true]
    exact recvPacket_isSome_iff hb.2

theorem recvStep_bufAddr {h : Host} {logFlag : Bool} {s t : RecvState} {o : ReadOutcome}
    (hs : recvStep h logFlag s o = some t) : t.bufAddr = (readCsiBuf s.bufAddr o).2 := by
  unfold recvStep at hs
  simp only at hs
  split at hs
  · exact (recvPacket_eq_some hs).2.2.2
  · cases hs
    rfl

/-- What a packet adds to the log: as many bytes of the buffer as the trailing length says, behind that length. -/
theorem recvStep_log {h : Host} {s t : RecvState} {bytes : List UInt8} {hb : 0 < bytes.length ∧ bytes.length ≤ 4096}
    (h2 : 2 ≤ bytes.length) (ht : recvStep h true s (.packet bytes hb) = some t) {len : UInt16}
    (hlen : BufAddr.short (s.bufAddr.overlay bytes) (bytes.length - 2) = len) :
    ∃ body, (s.bufAddr.overlay bytes).first? len.toNat = some body ∧ t.file = s.file ++ (h.shortBytes len ++ body) := by
  have hcnt : (bytes.length : ℤ) ≠ 0 := by omega
  simp only [recvStep, readCsiBuf, ne_eq, hcnt, not_false_eq_true, if_true] at ht
  obtain ⟨hst, -, ⟨logged, hlog, hfile⟩, -⟩ := recvPacket_eq_some ht
  rw [recordStatus_eq h _ _ h2 hb.2] at hst
  have hbuf : t.csiStatus.bufLen = len := by
    rw [← Option.some.inj hst]
    exact hlen
  rw [hbuf, logPacket, if_pos rfl] at hlog
  obtain ⟨body, hbody, hlogged⟩ := Option.bind_eq_some_iff.mp hlog
  refine ⟨body, hbody, ?_⟩
  rw [hfile, ← Option.some.inj hlogged]

theorem recvLoop_cons (h : Host) (logFlag : Bool) (s : RecvState) (o : ReadOutcome) (os : List ReadOutcome) :
    recvLoop h logFlag s (o :: os) = (recvStep h logFlag s o).bind fun t => recvLoop h logFlag t os :=
  List.foldlM_cons

/-- The loop stays inside all its arrays exactly when each read is in range for the buffer it finds. -/
theorem recvLoop_isSome_iff (h : Host) (logFlag : Bool) (s : RecvState) (os : List ReadOutcome) :
    (recvLoop h logFlag s os).isSome ↔ AllInRange logFlag s.bufAddr os := by
  induction os generalizing s with
  | nil => simp [recvLoop, AllInRange]
  | cons o os ih =>
    rw [AllInRange, ← recvStep_isSome_iff h logFlag s o, recvLoop_cons]
    cases hs : recvStep h logFlag s o with
    | none => simp
    | some t =>
      rw [Option.bind_some, ih t, recvStep_bufAddr hs]
      simp

/-- A read that fails with -1 leads the loop to the index -2. -/
theorem recvLoop_error :
    recvLoop Host.x86 true ⟨BufAddr.zero, DataBuf.zero, CsiMatrix.zero, CsiStruct.zero, []⟩ [.error] = none := by
  rw [recvLoop_cons, recvStep_error]
  rfl

end AtherosCsi
