import AtherosCsi.RecvToDatabase
import AtherosCsi.Theorems.SaveCsi
import AtherosCsi.Theorems.TwoDecoders
import Mathlib.Algebra.BigOperators.Group.Finset.Basic
import Mathlib.Tactic.Push

/-! What the database receiver stores when the server works. A packet without CSI makes a text that is not a
    statement; the error closes the connection, and nothing opens it again. So the packets before the first
    one of that kind are stored, and none after it. -/

namespace AtherosCsi
open Sql

def Call.HasCsi (c : Call) : Prop := 1 ≤ c.csiStatus.nr.toNat ∧ 1 ≤ c.csiStatus.numTones.toNat

/-- A packet with data, and with a time stamp that the column has room for. -/
def Call.Storable (c : Call) : Prop := c.HasCsi ∧ c.csiStatus.tstamp.toNat < 2 ^ 63

def CallLog.Stored (l : CallLog) : Prop :=
  ∃ id, l.statusAdded = [⟨id, statusCells l.call.csiStatus⟩] ∧
    l.dataAdded.map Row.cell = dataRows id l.call.csiStatus l.call.csiMatrix

/-- A server that refuses nothing of its own accord, and whose sequences last for `a` more rows of
    `csi_status` and `b` more of `csi_data`. -/
structure Server.Obliging (s : Server) (a b : ℕ) : Prop where
  takes : ∀ k, (s.fates k).refuse = false
  status : ∀ k, s.db.status.next + ((∑ j ∈ Finset.range k, (s.fates j).skip : ℕ) : ℤ) + a ≤ 2 ^ 31
  data : ∀ k, s.db.data.next + ((∑ j ∈ Finset.range k, (s.fates j).skip : ℕ) : ℤ) + b ≤ 2 ^ 31

/-! ### One call -/

section Call
variable {s : Server} {a b : ℕ}

theorem Server.Obliging.after {x y : ℕ} (h : s.Obliging (a + x) (b + y)) {db : Db}
    (hstatus : db.status.next ≤ s.statusTable.next + x) (hdata : db.data.next ≤ s.dataTable.next + y) :
    (s.after db).Obliging a b where
  takes k := h.takes (k + 1)
  status k := by
    have hroom := h.status (k + 1)
    rw [Finset.sum_range_succ'] at hroom
    simp only [Server.statusTable, Table.skip, Server.after] at hstatus ⊢
    push_cast at hroom ⊢
    omega
  data k := by
    have hroom := h.data (k + 1)
    rw [Finset.sum_range_succ'] at hroom
    simp only [Server.dataTable, Table.skip, Server.after] at hdata ⊢
    push_cast at hroom ⊢
    omega

theorem Server.Obliging.takesStatus (h : s.Obliging (a + 1) b) {st : CsiStruct} (hts : st.tstamp.toNat < 2 ^ 63) :
    s.TakesStatus st := by
  have hroom := h.status 1
  simp only [Finset.sum_range_one] at hroom
  refine ⟨h.takes 0, hts, ?_⟩
  simp only [Server.statusTable, Table.skip]
  push_cast at hroom
  omega

def Server.beforeData (s : Server) (st : CsiStruct) : Server := (s.withStatus st).after (s.withStatus st).db

theorem Server.Obliging.beforeData (h : s.Obliging (a + 1) b) (st : CsiStruct) : (s.beforeData st).Obliging a b := by
  have hstatus : (s.withStatus st).Obliging a b :=
    h.after (x := 1) (y := 0) (by simp [Table.insert]) (by simp [Server.dataTable, Table.skip])
  exact hstatus.after (x := 0) (y := 0) (by simp [Server.statusTable, Table.skip]) (by simp [Server.dataTable, Table.skip])

theorem Server.Obliging.run_saveCsi (h : s.Obliging (a + 1) b) {c : Call} (hts : c.csiStatus.tstamp.toNat < 2 ^ 63) :
    (saveCsi true c.csiStatus c.csiMatrix).run Server.exec s =
      (dataStage c s.statusTable.next).run Server.exec (s.beforeData c.csiStatus) ∧
    -(2 ^ 31) ≤ s.statusTable.next ∧ s.statusTable.next < 2 ^ 31 := by
  have htakes := h.takesStatus hts
  refine ⟨?_, ?_⟩
  · rw [run_saveCsi_of_takes htakes, h.takes 1]
    rfl
  · have := s.statusTable.next_pos
    have := htakes.2.2
    omega

theorem Server.Obliging.save_storable (h : s.Obliging (a + 1) (b + 342)) {c : Call}
    (hdims : c.csiStatus.nr.toNat ≤ 3 ∧ c.csiStatus.nc.toNat ≤ 3 ∧ c.csiStatus.numTones.toNat ≤ 114) (hc : c.Storable)
    (log : List CallLog) :
    ∃ s' l, Session.save ⟨true, s, log⟩ c = some ⟨true, s', log ++ [l]⟩ ∧ l.call = c ∧ l.Stored ∧ s'.Obliging a b := by
  obtain ⟨hrun, hid⟩ := h.run_saveCsi hc.2
  have hdata := h.beforeData c.csiStatus
  have hroom := hdata.data 1
  have hle : c.csiStatus.numTones.toNat * c.csiStatus.nr.toNat ≤ 342 := Nat.mul_le_mul hdims.2.2 hdims.1
  have htakes : (s.beforeData c.csiStatus).TakesData c.csiStatus := by
    refine ⟨hdata.takes 0, hc.1.1, hc.1.2, ?_⟩
    simp only [Finset.sum_range_one, Server.dataTable, Table.skip] at hroom ⊢
    push_cast at hroom ⊢
    omega
  rw [run_dataStage_of_takes (DimsFit.of_le hdims) hid hc.2 htakes] at hrun
  refine ⟨_, _, Session.save_of_run hrun rfl rfl, rfl, ⟨_, rfl, Table.cell_numbered _ _⟩, ?_⟩
  refine hdata.after (x := 0) (y := 342) (by simp [Server.statusTable, Table.skip]) ?_
  simp only [Table.insert, dataRows, List.length_map, length_positions]
  omega

theorem Server.Obliging.save_not_storable (h : s.Obliging (a + 1) b) {c : Call}
    (hdims : DimsFit c.csiStatus.nr.toNat c.csiStatus.nc.toNat c.csiStatus.numTones.toNat) (hc : ¬ c.Storable)
    (log : List CallLog) :
    ∃ s' l, Session.save ⟨true, s, log⟩ c = some ⟨false, s', log ++ [l]⟩ ∧ l.call = c ∧ (c.HasCsi → l.statusAdded = []) := by
  by_cases hts : c.csiStatus.tstamp.toNat < 2 ^ 63
  · obtain ⟨hrun, hid⟩ := h.run_saveCsi hts
    have htakes : ¬ (s.beforeData c.csiStatus).TakesData c.csiStatus := fun h => hc ⟨⟨h.2.1, h.2.2.1⟩, hts⟩
    obtain ⟨data, hfail, hrows⟩ := run_dataStage_of_not_takes hdims hid hts htakes
    rw [hfail] at hrun
    exact ⟨_, _, Session.save_of_run hrun rfl (hrows.trans (List.append_nil _).symm), rfl, fun hcsi => absurd ⟨hcsi, hts⟩ hc⟩
  · have htakes : ¬ s.TakesStatus c.csiStatus := fun h => hts h.2.1
    exact ⟨_, _, Session.save_of_run (run_saveCsi_of_not_takes htakes) (List.append_nil _).symm (List.append_nil _).symm,
      rfl, fun _ => rfl⟩

end Call

/-! ### Call after call -/

theorem saveAll_closed (s : Server) (cs : List Call) (log : List CallLog) :
    Session.saveAll ⟨false, s, log⟩ cs = some ⟨false, s, log ++ cs.map fun c => ⟨c, 0, [], []⟩⟩ := by
  induction cs generalizing log with
  | nil =>
    rw [List.map_nil, List.append_nil]
    rfl
  | cons c cs ih =>
    have hsave : Session.save ⟨false, s, log⟩ c = some ⟨false, s, log ++ [⟨c, 0, [], []⟩]⟩ :=
      Session.save_of_run rfl (List.append_nil _).symm (List.append_nil _).symm
    rw [Session.saveAll_cons hsave, ih, List.append_assoc]
    rfl

theorem CallLog.not_stored {l : CallLog} (h : l.statusAdded = []) : ¬ l.Stored := by
  rintro ⟨id, hstatus, -⟩
  rw [h] at hstatus
  cases hstatus

/-- No packet that cannot be stored comes before one with data, or is one with data. -/
def Undisturbed (cs : List Call) : Prop :=
  (∀ c ∈ cs, c.HasCsi → c.Storable) ∧ cs.Pairwise fun b c => c.HasCsi → b.Storable

theorem undisturbed_cons_of_storable {c : Call} (hc : c.Storable) (cs : List Call) :
    Undisturbed (c :: cs) ↔ Undisturbed cs := by
  simp only [Undisturbed, List.forall_mem_cons, List.pairwise_cons]
  exact ⟨fun h => ⟨h.1.2, h.2.2⟩, fun h => ⟨⟨fun _ => hc, h.1⟩, fun _ _ _ => hc, h.2⟩⟩

theorem undisturbed_cons_of_not_storable {c : Call} (hc : ¬ c.Storable) (cs : List Call) :
    Undisturbed (c :: cs) ↔ ∀ b ∈ c :: cs, ¬ b.HasCsi := by
  simp only [Undisturbed, List.forall_mem_cons, List.pairwise_cons]
  constructor
  · exact fun h => ⟨fun hcsi => hc (h.1.1 hcsi), fun b hb hcsi => hc (h.2.1 b hb hcsi)⟩
  · intro h
    refine ⟨⟨fun hcsi => absurd hcsi h.1, fun b hb hcsi => absurd hcsi (h.2 b hb)⟩, fun b hb hcsi => absurd hcsi (h.2 b hb), ?_⟩
    exact List.pairwise_of_forall_mem_list fun b _ c hc hcsi => absurd hcsi (h.2 c hc)

theorem saveAll_stored_iff (cs : List Call) {s : Server} (hs : s.Obliging cs.length (342 * cs.length))
    (hdims : ∀ c ∈ cs, c.csiStatus.nr.toNat ≤ 3 ∧ c.csiStatus.nc.toNat ≤ 3 ∧ c.csiStatus.numTones.toNat ≤ 114)
    (log : List CallLog) :
    ∃ conn s' new, Session.saveAll ⟨true, s, log⟩ cs = some ⟨conn, s', log ++ new⟩ ∧ new.map CallLog.call = cs ∧
      ((∀ l ∈ new, l.call.HasCsi → l.Stored) ↔ Undisturbed cs) := by
  induction cs generalizing s log with
  | nil => exact ⟨true, s, [], by rw [List.append_nil]; rfl, rfl, by simp [Undisturbed]⟩
  | cons c cs ih =>
    have hdc := hdims c List.mem_cons_self
    rw [List.length_cons, Nat.mul_succ] at hs
    by_cases hc : c.Storable
    · obtain ⟨t, l, hsave, hl, hstored, ht⟩ := hs.save_storable hdc hc log
      obtain ⟨conn, s', new, hall, hnew, hiff⟩ := ih ht (fun c hc => hdims c (List.mem_cons_of_mem _ hc)) (log ++ [l])
      refine ⟨conn, s', l :: new, ?_, by rw [List.map_cons, hl, hnew], ?_⟩
      · rw [Session.saveAll_cons hsave, hall, List.append_assoc]
        rfl
      · rw [undisturbed_cons_of_storable hc, ← hiff, List.forall_mem_cons]
        exact ⟨fun h => h.2, fun h => ⟨fun _ => hstored, h⟩⟩
    · obtain ⟨t, l, hsave, hl, hnone⟩ := hs.save_not_storable (DimsFit.of_le hdc) hc log
      refine ⟨false, t, l :: cs.map fun c => ⟨c, 0, [], []⟩, ?_, ?_, ?_⟩
      · rw [Session.saveAll_cons hsave, saveAll_closed, List.append_assoc]
        rfl
      · rw [List.map_cons, hl, List.map_map]
        exact congrArg (c :: ·) (List.map_id cs)
      · rw [undisturbed_cons_of_not_storable hc, List.forall_mem_cons, List.forall_mem_cons, List.forall_mem_map, hl]
        refine and_congr ⟨fun h hcsi => ?_, fun h hcsi => absurd hcsi h⟩ (forall₂_congr fun b hb => ?_)
        · exact CallLog.not_stored (hnone hcsi) (h hcsi)
        · exact ⟨fun h hcsi => CallLog.not_stored rfl (h hcsi), fun h hcsi => absurd hcsi h⟩

/-! ### The loop -/

theorem dbRecvLoop_eq (h : Host) (rs : List Round) {g g' : DbGlobals} {cs : List Call}
    (hdec : decodeRounds h g rs = some (g', cs)) (s : Session) :
    dbRecvLoop h ⟨g, s⟩ rs = (s.saveAll cs).map fun s' => ⟨g', s'⟩ := by
  induction rs generalizing g s cs with
  | nil =>
    cases hdec
    rfl
  | cons r rs ih =>
    obtain ⟨⟨g₁, call⟩, hround, hdec⟩ := Option.bind_eq_some_iff.mp hdec
    obtain ⟨⟨g₂, calls⟩, hrest, hdec⟩ := Option.bind_eq_some_iff.mp hdec
    cases hdec
    rw [dbRecvLoop, List.foldlM_cons, dbRecvStep, hround]
    cases call with
    | none => exact ih hrest s
    | some c =>
      rw [Option.toList_some, List.singleton_append, Session.saveAll, List.foldlM_cons]
      cases hsave : s.save c with
      | none => simp [hsave]
      | some t =>
        simp only [Option.bind_eq_bind, Option.bind_some, hsave]
        exact ih hrest t

/-- With a server that stays up, every packet with data is stored exactly when the run is undisturbed. -/
theorem dbRecvLoop_stored_iff (h : Host) (g g' : DbGlobals) (server : Server) (rs : List Round) (cs : List Call)
    (hdec : decodeRounds h g rs = some (g', cs))
    (hdims : ∀ c ∈ cs, c.csiStatus.nr.toNat ≤ 3 ∧ c.csiStatus.nc.toNat ≤ 3 ∧ c.csiStatus.numTones.toNat ≤ 114)
    (hserver : server.Obliging cs.length (342 * cs.length)) :
    ∃ s, dbRecvLoop h ⟨g, true, server, []⟩ rs = some ⟨g', s⟩ ∧ s.log.map CallLog.call = cs ∧ Linked server.db s ∧
      ((∀ l ∈ s.log, l.call.HasCsi → l.Stored) ↔ Undisturbed cs) := by
  obtain ⟨conn, s', new, hall, hnew, hiff⟩ := saveAll_stored_iff cs hserver hdims []
  obtain ⟨s, hall', -, hs⟩ := (Session.Traced.start true server).saveAll cs fun c hc => DimsFit.of_le (hdims c hc)
  rw [List.nil_append] at hall
  cases hall.symm.trans hall'
  refine ⟨_, ?_, hnew, hs.linked, hiff⟩
  rw [dbRecvLoop_eq h rs hdec, hall]
  rfl

/-! A packet without CSI, and one with CSI behind it. -/

def statusDbAt (h : Host) (clock : Timespec) (buf : BufAddr) (cnt : ℕ) (csiLen : UInt16) : CsiStruct :=
  { statusAt h buf cnt with tstamp := clock.finalTs.toUInt64, csiLen }

theorem decodeRound_packet (h : Host) (g : DbGlobals) {bytes : List UInt8} (hb : 0 < bytes.length ∧ bytes.length ≤ 4096)
    (clock : Timespec) {buf : BufAddr} {csiLen : UInt16} (hbuf : g.bufAddr.overlay bytes = buf)
    (hlen : g.csiStatus.csiLen = csiLen) (h2 : 2 ≤ bytes.length) (hfits : PayloadFits csiLen.toNat (buf.short 23).toNat)
    (hdims : DimsFit (buf.byte 17).toNat (buf.byte 18).toNat (buf.byte 16).toNat) :
    ∃ dataBuf csiMatrix, decodeRound h g ⟨.packet bytes hb, clock⟩ =
      some (⟨buf, dataBuf, csiMatrix, statusDbAt h clock buf bytes.length csiLen⟩,
        some ⟨statusDbAt h clock buf bytes.length csiLen, csiMatrix⟩) := by
  have hcnt : (bytes.length : ℤ) ≠ 0 := by omega
  have hst : recordStatusDb h clock buf bytes.length g.csiStatus = some (statusDbAt h clock buf bytes.length csiLen) := by
    rw [recordStatusDb_eq h clock buf bytes.length h2 hb.2 g.csiStatus, hlen]
    rfl
  obtain ⟨⟨dataBuf, csiMatrix⟩, hpay⟩ : ∃ res, recordCsiPayload buf (statusDbAt h clock buf bytes.length csiLen) g.dataBuf
      g.csiMatrix = some res :=
    ⟨_, recordCsiPayload_eq buf _ hfits hdims g.dataBuf g.csiMatrix⟩
  refine ⟨dataBuf, csiMatrix, ?_⟩
  simp only [decodeRound, readCsiBuf, hbuf, ne_eq, hcnt, not_false_eq_true, if_true, hst, Option.bind_eq_bind,
    Option.bind_some, hpay]
  rfl

theorem decodeRounds_cons {h : Host} {g g₁ g₂ : DbGlobals} {r : Round} {rs : List Round} {call : Option Call} {cs : List Call}
    (hround : decodeRound h g r = some (g₁, call)) (hrest : decodeRounds h g₁ rs = some (g₂, cs)) :
    decodeRounds h g (r :: rs) = some (g₂, call.toList ++ cs) := by
  simp only [decodeRounds, hround, Option.bind_eq_bind, Option.bind_some, hrest]
  rfl

def emptyPacket : List UInt8 := [0, 0, 0, 0, 0, 0, 0, 0, 0, 0, 0, 0, 0, 0, 0, 0, 0, 0, 0, 0, 0, 0, 0, 0, 0, 25, 0]

def emptyRound : Round := ⟨.packet emptyPacket (by decide), ⟨0, 0⟩⟩

def oneRound : Round := ⟨.packet onePacket (by decide), ⟨0, 0⟩⟩

def zeroGlobals : DbGlobals := ⟨BufAddr.zero, DataBuf.zero, CsiMatrix.zero, CsiStruct.zero⟩

def newServer : Server := ⟨Db.empty, fun _ => ⟨false, 0⟩⟩

theorem newServer_obliging {a b : ℕ} (ha : a < 2 ^ 31) (hb : b < 2 ^ 31) : newServer.Obliging a b where
  takes _ := rfl
  status k := by
    simp only [newServer, Db.empty, Table.empty, Finset.sum_const_zero]
    omega
  data k := by
    simp only [newServer, Db.empty, Table.empty, Finset.sum_const_zero]
    omega

def emptyBuf : BufAddr := BufAddr.zero.overlay emptyPacket

def emptyStatus : CsiStruct := statusDbAt Host.x86 ⟨0, 0⟩ emptyBuf 27 0

def oneStatus : CsiStruct := statusDbAt Host.x86 ⟨0, 0⟩ (emptyBuf.overlay onePacket) 30 0

theorem decodeRounds_empty_one : ∃ g' m m',
    decodeRounds Host.x86 zeroGlobals [emptyRound, oneRound] = some (g', [⟨emptyStatus, m⟩, ⟨oneStatus, m'⟩]) := by
  have hlen : 0 < emptyPacket.length ∧ emptyPacket.length ≤ 4096 := by decide
  have hlen' : 0 < onePacket.length ∧ onePacket.length ≤ 4096 := by decide
  have hbuf : BufAddr.zero.overlay emptyPacket = emptyBuf := rfl
  have hcsiLen : emptyStatus.csiLen = 0 := rfl
  obtain ⟨data, m, hempty⟩ := decodeRound_packet Host.x86 zeroGlobals hlen ⟨0, 0⟩ hbuf rfl (by decide) (by decide)
    (by decide)
  obtain ⟨data', m', hone⟩ := decodeRound_packet Host.x86 ⟨emptyBuf, data, m, emptyStatus⟩ hlen' ⟨0, 0⟩
    (Eq.refl (emptyBuf.overlay onePacket)) hcsiLen (by decide) (by decide) (by decide)
  refine ⟨⟨emptyBuf.overlay onePacket, data', m', oneStatus⟩, m, m', ?_⟩
  exact decodeRounds_cons hempty (decodeRounds_cons hone rfl)

theorem dims_empty_one (m m' : CsiMatrix) : ∀ c ∈ [(⟨emptyStatus, m⟩ : Call), ⟨oneStatus, m'⟩],
    c.csiStatus.nr.toNat ≤ 3 ∧ c.csiStatus.nc.toNat ≤ 3 ∧ c.csiStatus.numTones.toNat ≤ 114 := by
  intro c hc
  rcases List.mem_pair.mp hc with rfl | rfl
  · exact (by decide : emptyStatus.nr.toNat ≤ 3 ∧ emptyStatus.nc.toNat ≤ 3 ∧ emptyStatus.numTones.toNat ≤ 114)
  · exact (by decide : oneStatus.nr.toNat ≤ 3 ∧ oneStatus.nc.toNat ≤ 3 ∧ oneStatus.numTones.toNat ≤ 114)

theorem dbRecvLoop_stored_iff_empty_one : ∃ g' cs s, decodeRounds Host.x86 zeroGlobals [emptyRound, oneRound] = some (g', cs) ∧
    dbRecvLoop Host.x86 ⟨zeroGlobals, true, newServer, []⟩ [emptyRound, oneRound] = some ⟨g', s⟩ ∧
    s.log.map CallLog.call = cs ∧ Linked newServer.db s ∧ ((∀ l ∈ s.log, l.call.HasCsi → l.Stored) ↔ Undisturbed cs) := by
  obtain ⟨g', m, m', hdec⟩ := decodeRounds_empty_one
  have hserver : newServer.Obliging 2 (342 * 2) := newServer_obliging (by decide) (by decide)
  exact ⟨g', _, (dbRecvLoop_stored_iff Host.x86 zeroGlobals g' newServer _ _ hdec (dims_empty_one m m') hserver).imp
    fun _ hs => ⟨hdec, hs⟩⟩

/-- The packet with CSI is not stored, for the one before it has closed the connection. -/
theorem dbRecvLoop_loses : ∃ g' cs s, decodeRounds Host.x86 zeroGlobals [emptyRound, oneRound] = some (g', cs) ∧
    (∀ c ∈ cs, c.csiStatus.nr.toNat ≤ 3 ∧ c.csiStatus.nc.toNat ≤ 3 ∧ c.csiStatus.numTones.toNat ≤ 114) ∧
    newServer.Obliging cs.length (342 * cs.length) ∧
    dbRecvLoop Host.x86 ⟨zeroGlobals, true, newServer, []⟩ [emptyRound, oneRound] = some ⟨g', s⟩ ∧
    s.log.map CallLog.call = cs ∧ ¬ ∀ l ∈ s.log, l.call.HasCsi → l.Stored := by
  obtain ⟨g', m, m', hdec⟩ := decodeRounds_empty_one
  have hdims := dims_empty_one m m'
  have hserver : newServer.Obliging 2 (342 * 2) := newServer_obliging (by decide) (by decide)
  obtain ⟨conn, s', new, hall, hnew, hiff⟩ := saveAll_stored_iff [⟨emptyStatus, m⟩, ⟨oneStatus, m'⟩] hserver hdims []
  rw [List.nil_append] at hall
  refine ⟨g', _, ⟨conn, s', new⟩, hdec, hdims, hserver, ?_, hnew, ?_⟩
  · rw [dbRecvLoop_eq Host.x86 _ hdec, hall]
    rfl
  · rw [hiff]
    intro h
    have hstorable := (List.pairwise_pair.mp h.2) (by decide : 1 ≤ oneStatus.nr.toNat ∧ 1 ≤ oneStatus.numTones.toNat)
    exact absurd hstorable.1.1 (by decide : ¬ 1 ≤ emptyStatus.nr.toNat)

end AtherosCsi
