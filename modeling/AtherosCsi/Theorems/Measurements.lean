import AtherosCsi.Theorems.Outage
import AtherosCsi.Theorems.QueryBuffer
import Mathlib.Data.List.ProdSigma

/-! From the device into the database and back. A consumer of the tables finds a packet by the key of its
    status, and an entry of its matrix by antenna and subcarrier in the row and by transmit antenna in the
    column. What it finds there is what the device has measured, for every packet of a run. -/

namespace AtherosCsi
open LittleEndian Loop Sql

/-! ### What the device sends -/

/-- A packet with CSI, and the clock when it arrives. -/
structure Measurement where
  content : Content
  trailing : UInt16
  clock : Timespec
  hasCsi : 1 ≤ content.nr.toNat ∧ 1 ≤ content.numTones.toNat
  clock_lt : clock.finalTs.toUInt64.toNat < 2 ^ 63

namespace Measurement
variable (x : Measurement)

def bytes : List UInt8 := x.content.record.packet x.trailing

theorem length_bytes : x.bytes.length = x.content.record.len + 2 := DeviceRecord.length_packet _ _

theorem bytes_range : 0 < x.bytes.length ∧ x.bytes.length ≤ 4096 := by
  have := x.content.record.len_le
  rw [x.length_bytes]
  omega

def round : Round := ⟨.packet x.bytes x.bytes_range, x.clock⟩

/-- The status that the receiver saves: its time stamp comes from the clock, and the length of the CSI is
    what the variable held before the first packet. -/
def status (csiLen : UInt16) : CsiStruct :=
  { x.content.record.csiStruct x.clock.finalTs.toUInt64 x.trailing with csiLen }

theorem status_csiLen (csiLen : UInt16) : (x.status csiLen).csiLen = csiLen := rfl

/-- The call of `save_csi` carries the packet. -/
structure Carries (csiLen : UInt16) (x : Measurement) (c : Call) : Prop where
  status : c.csiStatus = x.status csiLen
  entry : ∀ r < x.content.nr.toNat, ∀ t < x.content.nc.toNat, ∀ k < x.content.numTones.toNat,
    (cellAt c.csiMatrix r t k).real.toInt = (x.content.entry r t k).real ∧
    (cellAt c.csiMatrix r t k).imag.toInt = (x.content.entry r t k).imag

theorem Carries.dims {csiLen : UInt16} {x : Measurement} {c : Call} (h : Carries csiLen x c) :
    c.csiStatus.nr = x.content.nr ∧ c.csiStatus.nc = x.content.nc ∧ c.csiStatus.numTones = x.content.numTones := by
  rw [h.status]
  exact ⟨rfl, rfl, rfl⟩

theorem Carries.storable {csiLen : UInt16} {x : Measurement} {c : Call} (h : Carries csiLen x c) : c.Storable := by
  obtain ⟨hnr, -, hnt⟩ := h.dims
  refine ⟨⟨?_, ?_⟩, ?_⟩
  · rw [hnr]
    exact x.hasCsi.1
  · rw [hnt]
    exact x.hasCsi.2
  · rw [h.status]
    exact x.clock_lt

/-! ### Decoding -/

theorem decodeRound_round (h : Host) (g : DbGlobals) (hcsi : g.csiStatus.csiLen.toNat ≤ 2571) :
    ∃ g' c, decodeRound h g x.round = some (g', some c) ∧ g'.csiStatus.csiLen = g.csiStatus.csiLen ∧
      Carries g.csiStatus.csiLen x c := by
  have hlen := x.content.record.len_le
  have hcnt : (x.bytes.length : ℤ) ≠ 0 := by
    rw [x.length_bytes]
    omega
  have hst : recordStatusDb h x.clock (g.bufAddr.overlay x.bytes) x.bytes.length g.csiStatus =
      some (x.status g.csiStatus.csiLen) := by
    rw [x.length_bytes, recordStatusDb_eq h x.clock _ _ (by omega) (by omega), bytes, x.content.record.statusAt_packet]
    simp only [status, DeviceRecord.csiStruct]
  have hpayload : (x.status g.csiStatus.csiLen).payloadLen.toNat = x.content.payload.length := x.content.record.payloadLen_toNat
  have hfits : PayloadFits (x.status g.csiStatus.csiLen).csiLen.toNat (x.status g.csiStatus.csiLen).payloadLen.toNat := by
    have hroom := x.content.payload_le
    rw [hpayload, status_csiLen]
    exact ⟨hroom, .inr (by omega)⟩
  obtain ⟨ys, hys⟩ := x.content.record.csiAt_packet x.trailing g.bufAddr
    (n := bytesRead (x.content.numTones.toNat * x.content.nc.toNat * x.content.nr.toNat)) (by
      rw [x.content.length_record_csi, x.content.csiLen_eq, bytesRead]
      omega)
  obtain ⟨dataBuf, csiMatrix, hpay, hmatrix⟩ : ∃ dataBuf csiMatrix,
      recordCsiPayload (g.bufAddr.overlay x.bytes) (x.status g.csiStatus.csiLen) g.dataBuf g.csiMatrix =
        some (dataBuf, csiMatrix) ∧
      csiMatrix = filled (leVal (x.content.record.csi ++ ys)) x.content.nr.toNat x.content.nc.toNat
        x.content.numTones.toNat g.csiMatrix := by
    rw [recordCsiPayload_eq (g.bufAddr.overlay x.bytes) (x.status g.csiStatus.csiLen) hfits
      (DimsFit.of_le ⟨x.content.nr_le, x.content.nc_le, x.content.numTones_le⟩), ← hys]
    exact ⟨_, _, rfl, rfl⟩
  refine ⟨⟨g.bufAddr.overlay x.bytes, dataBuf, csiMatrix, x.status g.csiStatus.csiLen⟩,
    ⟨x.status g.csiStatus.csiLen, csiMatrix⟩, ?_, x.status_csiLen _, rfl, fun r hr t ht k hk => ?_⟩
  · simp only [decodeRound, round, readCsiBuf, ne_eq, hcnt, not_false_eq_true, if_true, hst, Option.bind_eq_bind,
      Option.bind_some, hpay]
    rfl
  · have himag := x.content.chunk_record ys ((x.content.getElem?_parts hr ht hk Nat.two_pos).trans rfl)
    have hreal := x.content.chunk_record ys ((x.content.getElem?_parts hr ht hk Nat.one_lt_two).trans rfl)
    rw [hmatrix, cellAt_filled g.csiMatrix hr ht hk (hr.trans_le x.content.nr_le) (ht.trans_le x.content.nc_le)
      (hk.trans_le x.content.numTones_le)]
    exact ⟨toInt_part (x.content.entry r t k).real_mem hreal, toInt_part (x.content.entry r t k).imag_mem himag⟩

theorem decodeRounds_rounds (h : Host) (xs : List Measurement) (g : DbGlobals) (hcsi : g.csiStatus.csiLen.toNat ≤ 2571) :
    ∃ g' cs, decodeRounds h g (xs.map round) = some (g', cs) ∧ List.Forall₂ (Carries g.csiStatus.csiLen) xs cs := by
  induction xs generalizing g with
  | nil => exact ⟨g, [], rfl, .nil⟩
  | cons x xs ih =>
    obtain ⟨g₁, c, hround, hlen, hc⟩ := x.decodeRound_round h g hcsi
    obtain ⟨g₂, cs, hrest, hcs⟩ := ih g₁ (by rw [hlen]; exact hcsi)
    exact ⟨g₂, c :: cs, decodeRounds_cons hround hrest, .cons hc (hlen ▸ hcs)⟩

end Measurement

/-! ### Finding an entry again -/

/-- `SELECT rc_t_real, rc_t_imag FROM csi_data WHERE status_id = id AND antenna = r + 1 AND subcarrier = k + 1` -/
def Db.entry (db : Db) (id : ℤ) (r : ℕ) (t : Fin 3) (k : ℕ) : List (Option Cell × Option Cell) :=
  (db.data.rows.filter fun d => d.cell .statusId = some (.int id) ∧ d.cell .antenna = some (.int (r + 1)) ∧
    d.cell .subcarrier = some (.int (k + 1))).map fun d => (d.cell (.rcReal t), d.cell (.rcImag t))

theorem nodup_positions (nr numTones : ℕ) : (positions nr numTones).Nodup :=
  List.Nodup.product List.nodup_range List.nodup_range

theorem filter_positions {nr numTones r k : ℕ} (hr : r < nr) (hk : k < numTones) :
    (positions nr numTones).filter (fun p => p = (k, r)) = [(k, r)] := by
  have hmem : (k, r) ∈ positions nr numTones := mem_positions.mpr ⟨hk, hr⟩
  have hcount := List.count_eq_one_of_mem (nodup_positions nr numTones) hmem
  rw [List.filter_eq, hcount, List.replicate_one]

/-- The rows of a packet hold one row for each pair of antenna and subcarrier. -/
theorem filter_dataRows {id : ℤ} {st : CsiStruct} {m : CsiMatrix} {ds : List DataRow}
    (hds : ds.map Row.cell = dataRows id st m) {r k : ℕ} (hr : r < st.nr.toNat) (hk : k < st.numTones.toNat) :
    (ds.filter fun d => d.cell .antenna = some (.int (r + 1)) ∧ d.cell .subcarrier = some (.int (k + 1))).map Row.cell =
      [dataCells id st m (k, r)] := by
  have hcells : (ds.map Row.cell).filter (fun cell => cell .antenna = some (.int (r + 1)) ∧ cell .subcarrier = some (.int (k + 1))) =
      [dataCells id st m (k, r)] := by
    have hpos : ∀ p ∈ positions st.nr.toNat st.numTones.toNat,
        (decide (dataCells id st m p .antenna = some (.int (r + 1)) ∧ dataCells id st m p .subcarrier = some (.int (k + 1)))) =
          decide (p = (k, r)) := by
      rintro ⟨k', r'⟩ -
      simp only [dataCells, Option.some.injEq, Cell.int.injEq, Prod.mk.injEq, decide_eq_decide]
      omega
    rw [hds, dataRows, List.filter_map]
    exact (congrArg (List.map _) (List.filter_congr hpos)).trans (by rw [filter_positions hr hk]; rfl)
  rw [← hcells, List.filter_map]
  rfl

theorem forall_of_forall₂ {α β : Type} {R : α → β → Prop} {P : β → Prop} {as : List α} {bs : List β} (h : List.Forall₂ R as bs)
    (hP : ∀ a b, R a b → P b) : ∀ b ∈ bs, P b := by
  induction h with
  | nil => exact List.forall_mem_nil _
  | cons hab _ ih => exact List.forall_mem_cons.mpr ⟨hP _ _ hab, ih⟩

/-- Elements that each give one element of a list give a list of as many. -/
theorem exists_forall₂_flatMap {α β γ : Type} {R : α → β → Prop} {S : α → γ → Prop} {f : β → List γ} {as : List α} {bs : List β}
    (h : List.Forall₂ R as bs) (hf : ∀ a, ∀ b ∈ bs, R a b → ∃ c, f b = [c] ∧ S a c) :
    ∃ cs, bs.flatMap f = cs ∧ List.Forall₂ S as cs := by
  induction h with
  | nil => exact ⟨[], rfl, .nil⟩
  | @cons a b as bs hab _ ih =>
    obtain ⟨c, hc, hS⟩ := hf a b List.mem_cons_self hab
    obtain ⟨cs, hcs, hall⟩ := ih fun a b hb => hf a b (List.mem_cons_of_mem _ hb)
    exact ⟨c :: cs, by rw [List.flatMap_cons, hc, hcs, List.singleton_append], .cons hS hall⟩

/-- The row of a packet in `csi_status`, and what a consumer finds under its key. -/
structure Measurement.Recovered (csiLen : UInt16) (db : Db) (x : Measurement) (row : StatusRow) : Prop where
  status : row.cell = statusCells (x.status csiLen)
  entry : ∀ r < x.content.nr.toNat, ∀ t : Fin 3, (t : ℕ) < x.content.nc.toNat → ∀ k < x.content.numTones.toNat,
    db.entry row.id r t k = [(some (.int (x.content.entry r t k).real), some (.int (x.content.entry r t k).imag))]

theorem Session.Traced.entry_eq {db : Db} {s : Session} (h : s.Traced db)
    (hrefers : ∀ d ∈ db.data.rows, ∃ r ∈ db.status.rows, d.cell .statusId = some (.int r.id)) {l : CallLog} (hl : l ∈ s.log)
    {row : StatusRow} (hrow : l.statusAdded = [row])
    (hdata : l.dataAdded.map Row.cell = dataRows row.id l.call.csiStatus l.call.csiMatrix) {r k : ℕ} (t : Fin 3)
    (hr : r < l.call.csiStatus.nr.toNat) (ht : (t : ℕ) < l.call.csiStatus.nc.toNat) (hk : k < l.call.csiStatus.numTones.toNat) :
    s.server.db.entry row.id r t k = [(some (.int (cellAt l.call.csiMatrix r t k).real.toInt),
      some (.int (cellAt l.call.csiMatrix r t k).imag.toInt))] := by
  -- Rows from before the run name a status from before the run.
  have hold : db.data.rows.filter (fun d => d.cell .statusId = some (.int row.id)) = [] := by
    refine List.filter_eq_nil_iff.mpr fun d hd => ?_
    obtain ⟨old, hmem, hid⟩ := hrefers d hd
    have hlt := h.new old hmem row (List.mem_flatMap.mpr ⟨l, hl, hrow ▸ List.mem_singleton_self row⟩)
    rw [hid, decide_eq_true_eq, Option.some.injEq, Cell.int.injEq]
    omega
  have hown : s.server.db.data.rows.filter (fun d => d.cell .statusId = some (.int row.id)) = l.dataAdded := by
    rw [h.data, List.filter_append, hold, List.nil_append, h.filter_eq hl hrow]
  have hcells := filter_dataRows hdata hr hk
  rw [← hown, List.filter_filter] at hcells
  have hentry : s.server.db.entry row.id r t k = ((s.server.db.data.rows.filter fun d =>
      (decide (d.cell .antenna = some (.int (r + 1)) ∧ d.cell .subcarrier = some (.int (k + 1))) &&
        decide (d.cell .statusId = some (.int row.id)))).map Row.cell).map fun cell => (cell (.rcReal t), cell (.rcImag t)) := by
    rw [Db.entry, List.map_map]
    refine congrArg (List.map _) (List.filter_congr fun d _ => ?_)
    rw [← Bool.decide_and, decide_eq_decide]
    exact ⟨fun ⟨h₁, h₂, h₃⟩ => ⟨⟨h₂, h₃⟩, h₁⟩, fun ⟨⟨h₂, h₃⟩, h₁⟩ => ⟨h₁, h₂, h₃⟩⟩
  rw [hentry, hcells]
  simp only [List.map_cons, List.map_nil, dataCells, ht, if_true]

/-- A run of the database receiver on packets with CSI, with a server that stays up: each packet has a row of
    its own in `csi_status`, in the order in which they came, and under its key each entry of its matrix is
    found exactly once. -/
theorem measurements_recovered (h : Host) (g : DbGlobals) (hcsi : g.csiStatus.csiLen.toNat ≤ 2571) (server : Server)
    (hrefers : ∀ d ∈ server.db.data.rows, ∃ r ∈ server.db.status.rows, d.cell .statusId = some (.int r.id))
    (xs : List Measurement) (hserver : server.Obliging xs.length (342 * xs.length)) :
    ∃ s new, dbRecvLoop h ⟨g, true, server, []⟩ (xs.map Measurement.round) = some s ∧
      s.session.server.db.status.rows = server.db.status.rows ++ new ∧ (new.map Row.id).Pairwise (· < ·) ∧
      List.Forall₂ (Measurement.Recovered g.csiStatus.csiLen s.session.server.db) xs new := by
  obtain ⟨g', cs, hdec, hcarries⟩ := Measurement.decodeRounds_rounds h xs g hcsi
  have hdims : ∀ c ∈ cs, c.csiStatus.nr.toNat ≤ 3 ∧ c.csiStatus.nc.toNat ≤ 3 ∧ c.csiStatus.numTones.toNat ≤ 114 :=
    forall_of_forall₂ hcarries fun x c hc => by
      obtain ⟨hnr, hnc, hnt⟩ := hc.dims
      rw [hnr, hnc, hnt]
      exact ⟨x.content.nr_le, x.content.nc_le, x.content.numTones_le⟩
  have hstorable : ∀ c ∈ cs, c.Storable := forall_of_forall₂ hcarries fun x c hc => hc.storable
  have hundisturbed : Undisturbed cs :=
    ⟨fun c hc _ => hstorable c hc, List.pairwise_of_forall_mem_list fun b hb c _ _ => hstorable b hb⟩
  rw [hcarries.length_eq] at hserver
  obtain ⟨conn, s', log, hall, hlog, hiff⟩ := saveAll_stored_iff cs hserver hdims []
  obtain ⟨s, hall', -, hs⟩ := (Session.Traced.start true server).saveAll cs fun c hc => DimsFit.of_le (hdims c hc)
  rw [List.nil_append] at hall
  cases hall.symm.trans hall'
  have hstored : ∀ l ∈ log, l.Stored := fun l hl =>
    hiff.mpr hundisturbed l hl (hstorable l.call (hlog ▸ List.mem_map_of_mem hl)).1
  rw [← hlog, List.forall₂_map_right_iff] at hcarries
  obtain ⟨new, hnew, hrecovered⟩ := exists_forall₂_flatMap (f := CallLog.statusAdded)
    (S := Measurement.Recovered g.csiStatus.csiLen s'.db) hcarries fun x l hl hx => by
      obtain ⟨id, hstatus, hdata⟩ := hstored l hl
      obtain ⟨hnr, hnc, hnt⟩ := hx.dims
      refine ⟨_, hstatus, by rw [hx.status], fun r hr t ht k hk => ?_⟩
      obtain ⟨hreal, himag⟩ := hx.entry r hr t ht k hk
      rw [hs.entry_eq hrefers hl hstatus hdata t (hnr ▸ hr) (hnc ▸ ht) (hnt ▸ hk), hreal, himag]
  refine ⟨⟨g', ⟨conn, s', log⟩⟩, new, ?_, ?_, ?_, hrecovered⟩
  · rw [dbRecvLoop_eq h _ hdec, hall]
    rfl
  · rw [hs.status, hnew]
  · rw [← hnew, List.pairwise_map]
    exact hs.distinct

def oneMeasurement : Measurement where
  content := {
    tstamp := 0, channel := 2437, phyerr := 0, noise := 0, rate := 0x8b, chanBW := 0, numTones := 1, nr := 1, nc := 1
    rssi := 40, rssi0 := 40, rssi1 := 0, rssi2 := 0, payload := [0xaa]
    entry := fun _ _ _ => ⟨3, -4, by decide, by decide⟩
    nr_le := by decide, nc_le := by decide, numTones_le := by decide, payload_le := by decide }
  trailing := 29
  clock := oneRound.clock
  hasCsi := by decide
  clock_lt := by decide

theorem measurements_recovered_one : ∃ s row, dbRecvLoop Host.x86 ⟨zeroGlobals, true, newServer, []⟩ [oneMeasurement.round] = some s ∧
    s.session.server.db.status.rows = [row] ∧ s.session.server.db.entry row.id 0 0 0 = [(some (.int 3), some (.int (-4)))] := by
  obtain ⟨s, new, hrun, hstatus, -, hnew⟩ := measurements_recovered Host.x86 zeroGlobals (by decide) newServer (fun _ hd => absurd hd List.not_mem_nil)
    [oneMeasurement] (newServer_obliging (by decide) (by decide))
  rw [List.forall₂_cons_left_iff] at hnew
  obtain ⟨row, rest, hrow, hrest, rfl⟩ := hnew
  cases List.forall₂_nil_left_iff.mp hrest
  exact ⟨s, row, hrun, hstatus, hrow.entry 0 (by decide) 0 (by decide) 0 (by decide)⟩

end AtherosCsi
