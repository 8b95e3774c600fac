import AtherosCsi.Theorems.Fleet
import AtherosCsi.Theorems.TwoReceivers

/-! What is left of the link between a packet and its rows when receivers overtake each other. The id that a
    call reads is the largest, so the rows of its matrix go to its own status or to a younger one, all of them
    to the same one, and never to an older one. What a call returns still tells whether its rows are there. -/

namespace AtherosCsi
open Sql

structure OwnStatus (db : Db) (c : Call) (own : StatusRow) : Prop where
  mem : own ∈ db.status.rows
  cell : own.cell = statusCells c.csiStatus
  tstamp : c.csiStatus.tstamp.toNat < 2 ^ 63

/-- The places at which a call can stand while others come between its statements. -/
inductive Place (db : Db) : Running → Prop
  | begun {c : Call} {conn : Bool} : Place db ⟨c, saveCsi conn c.csiStatus c.csiMatrix, [], []⟩
  | inserted {c : Call} {own : StatusRow} (hown : OwnStatus db c own) : Place db ⟨c, selectStage c, [own], []⟩
  | asked {c : Call} {own row : StatusRow} (hown : OwnStatus db c own) (hrow : row ∈ db.status.rows) (hle : own.id ≤ row.id) :
      Place db ⟨c, dataStage c row.id, [own], []⟩
  | failed {c : Call} {conn : Bool} : Place db ⟨c, .ret (0, conn), [], []⟩
  | unfinished {c : Call} {conn : Bool} {own : StatusRow} (hown : OwnStatus db c own) : Place db ⟨c, .ret (0, conn), [own], []⟩
  | saved {c : Call} {conn : Bool} {own row : StatusRow} {dataAdded : List DataRow} (hown : OwnStatus db c own)
      (hrow : row ∈ db.status.rows) (hle : own.id ≤ row.id)
      (hdata : dataAdded.map Row.cell = dataRows row.id c.csiStatus c.csiMatrix) (hmem : ∀ d ∈ dataAdded, d ∈ db.data.rows) :
      Place db ⟨c, .ret (1, conn), [own], dataAdded⟩

/-- A call that has returned, next to the tables: it has returned 1 if and only if the rows of its matrix are
    there, all with the id of one status that is not older than its own. -/
structure CallLog.Attached (db : Db) (l : CallLog) : Prop where
  single : l.statusAdded.length ≤ 1
  status : ∀ own ∈ l.statusAdded, own ∈ db.status.rows ∧ own.cell = statusCells l.call.csiStatus
  data : ∀ d ∈ l.dataAdded, d ∈ db.data.rows
  outcome : l.returned = 0 ∧ l.dataAdded = [] ∨ l.returned = 1 ∧ ∃ own row, l.statusAdded = [own] ∧ row ∈ db.status.rows ∧
    own.id ≤ row.id ∧ l.dataAdded.map Row.cell = dataRows row.id l.call.csiStatus l.call.csiMatrix

structure Db.Grows (a b : Db) : Prop where
  status : a.status.rows <+: b.status.rows
  data : a.data.rows <+: b.data.rows

section Grow
variable {a b : Db} (h : a.Grows b)
include h

theorem OwnStatus.grow {c : Call} {own : StatusRow} (hown : OwnStatus a c own) : OwnStatus b c own :=
  ⟨h.status.subset hown.mem, hown.cell, hown.tstamp⟩

theorem Place.grow {run : Running} (hplace : Place a run) : Place b run := by
  cases hplace with
  | begun => exact .begun
  | inserted hown => exact .inserted (hown.grow h)
  | asked hown hrow hle => exact .asked (hown.grow h) (h.status.subset hrow) hle
  | failed => exact .failed
  | unfinished hown => exact .unfinished (hown.grow h)
  | saved hown hrow hle hdata hmem =>
    exact .saved (hown.grow h) (h.status.subset hrow) hle hdata fun d hd => h.data.subset (hmem d hd)

theorem CallLog.Attached.grow {l : CallLog} (hl : l.Attached a) : l.Attached b where
  single := hl.single
  status own hown := ⟨h.status.subset (hl.status own hown).1, (hl.status own hown).2⟩
  data d hd := h.data.subset (hl.data d hd)
  outcome := by
    refine hl.outcome.imp_right fun ⟨hone, own, row, hstatus, hrow, hrest⟩ => ?_
    exact ⟨hone, own, row, hstatus, h.status.subset hrow, hrest⟩

end Grow

theorem Place.attached {db : Db} {run : Running} {returned : ℤ} {conn : Bool} (h : Place db run)
    (hrest : run.rest = .ret (returned, conn)) : CallLog.Attached db ⟨run.call, returned, run.statusAdded, run.dataAdded⟩ := by
  cases h with
  | @begun c conn' =>
    cases conn' with
    | false =>
      cases hrest
      exact ⟨Nat.zero_le _, List.forall_mem_nil _, List.forall_mem_nil _, .inl ⟨rfl, rfl⟩⟩
    | true => cases (saveCsi_open c).symm.trans hrest
  | inserted => cases hrest
  | @asked c own row =>
    cases htext : csiDataQuery row.id c.csiStatus c.csiMatrix <;> simp only [dataStage, htext] at hrest <;> cases hrest
  | failed =>
    cases hrest
    exact ⟨Nat.zero_le _, List.forall_mem_nil _, List.forall_mem_nil _, .inl ⟨rfl, rfl⟩⟩
  | unfinished hown =>
    cases hrest
    refine ⟨Nat.le_refl _, fun r hr => ?_, List.forall_mem_nil _, .inl ⟨rfl, rfl⟩⟩
    rw [List.mem_singleton.mp hr]
    exact ⟨hown.mem, hown.cell⟩
  | saved hown hrow hle hdata hmem =>
    cases hrest
    refine ⟨Nat.le_refl _, fun r hr => ?_, hmem, .inr ⟨rfl, _, _, rfl, hrow, hle, hdata⟩⟩
    rw [List.mem_singleton.mp hr]
    exact ⟨hown.mem, hown.cell⟩

/-! ### The statements of one call -/

/-- What a statement of a call does to the tables and to the call's place. -/
structure Moves (s s' : Server) (run' : Running) : Prop where
  integral : s'.db.Integral
  grows : s.db.Grows s'.db
  place : Place s'.db run'

section Move
variable {s : Server} {run : Running} {query : List Char} {k : PGresult → PgProg}

theorem Moves.of_exec {res : PGresult} {s' : Server} {rest : PgProg} {statusAdded : List StatusRow} {dataAdded : List DataRow}
    (hexec : s.exec query = (res, s')) (hk : k res = rest) (hstatus : s'.db.status.rows = s.db.status.rows ++ statusAdded)
    (hdata : s'.db.data.rows = s.db.data.rows ++ dataAdded) (hintegral : s'.db.Integral)
    (hplace : Place s'.db ⟨run.call, rest, run.statusAdded ++ statusAdded, run.dataAdded ++ dataAdded⟩) :
    Moves s (s.exec query).2 (run.next (k (s.exec query).1) s (s.exec query).2) := by
  have hrun : run.next rest s s' = ⟨run.call, rest, run.statusAdded ++ statusAdded, run.dataAdded ++ dataAdded⟩ := by
    rw [Running.next, hstatus, hdata, List.drop_left, List.drop_left]
  rw [hexec, hk, hrun]
  exact ⟨hintegral, ⟨hstatus ▸ List.prefix_append _ _, hdata ▸ List.prefix_append _ _⟩, hplace⟩

theorem Place.advance (h : Place s.db run) (hdb : s.db.Integral) (hrest : run.rest = .call query k) :
    Moves s (s.exec query).2 (run.next (k (s.exec query).1) s (s.exec query).2) := by
  have hnone : ∀ {κ : Type} (rows : List (Row κ)), rows = rows ++ [] := fun rows => (List.append_nil rows).symm
  cases h with
  | @begun c conn =>
    cases conn with
    | false => cases hrest
    | true =>
      obtain ⟨rfl, hk⟩ := Prog.call.inj ((saveCsi_open c).symm.trans hrest)
      have hskip : ({ s.db with status := s.statusTable } : Db).Integral := hdb.of_rows rfl rfl
      by_cases htakes : s.TakesStatus c.csiStatus
      · have hselect : k .commandOk = selectStage c := by
          rw [← hk]
          rfl
        refine .of_exec (exec_status_of_takes htakes) hselect rfl (hnone _)
          (hskip.insertStatus _ (Int.lt_of_add_one_le htakes.2.2)) (.inserted ⟨?_, rfl, htakes.2.1⟩)
        exact List.mem_append_right _ (List.mem_singleton_self _)
      · have hfail : k .fatalError = .ret (0, false) := by
          rw [← hk]
          rfl
        exact .of_exec (exec_status_of_not_takes htakes) hfail (hnone _) (hnone _) hskip .failed
  | @inserted c own hown =>
    obtain ⟨rfl, hk⟩ := Prog.call.inj hrest
    have hexec := exec_select s
    split at hexec
    · have hfail : k .fatalError = .ret (0, false) := by rw [← hk]
      exact .of_exec hexec hfail (hnone _) (hnone _) hdb (.unfinished hown)
    · -- The largest id belongs to some row, and is not below that of the call's own row.
      have hmem : own.id ∈ s.db.status.rows.map Row.id := List.mem_map_of_mem hown.mem
      obtain ⟨id, hlatest⟩ : ∃ id, s.db.status.latest = some id := Option.ne_none_iff_exists'.mp fun h =>
        List.ne_nil_of_mem hmem (List.max?_eq_none_iff.mp h)
      obtain ⟨hid, hmax⟩ := List.max?_eq_some_iff.mp hlatest
      obtain ⟨row, hrow, rfl⟩ := List.mem_map.mp hid
      rw [hlatest, Option.map_some] at hexec
      have hfound : k (.tuplesOk (some (decimal row.id))) = dataStage c row.id := by
        simp only [← hk, atoi_decimal (hdb.ids row hrow)]
        rw [if_neg (Int.ne_of_gt (hdb.ids row hrow).1)]
      exact .of_exec hexec hfound (hnone _) (hnone _) hdb (.asked hown hrow (hmax _ hmem))
  | @asked c own row hown hrow hle =>
    have hid := hdb.ids row hrow
    have hrange : -(2 ^ 31) ≤ row.id ∧ row.id < 2 ^ 31 := by omega
    cases htext : csiDataQuery row.id c.csiStatus c.csiMatrix with
    | none =>
      simp only [dataStage, htext] at hrest
      cases hrest
    | some text =>
      simp only [dataStage, htext] at hrest
      obtain ⟨rfl, hk⟩ := Prog.call.inj hrest
      by_cases htakes : s.TakesData c.csiStatus
      · have hsaved : k .commandOk = .ret (1, true) := by
          rw [← hk]
          rfl
        have hskip : ({ s.db with data := s.dataTable } : Db).Integral := hdb.of_rows rfl rfl
        refine .of_exec (exec_data_of_takes htext hrange hown.tstamp htakes) hsaved (hnone _) rfl
          (hskip.insertData hrow c.csiStatus c.csiMatrix) (.saved ⟨hown.mem, hown.cell, hown.tstamp⟩ hrow hle ?_ fun d hd => ?_)
        · exact Table.cell_numbered _ _
        · exact List.mem_append_right _ hd
      · obtain ⟨data, hexec, hrows⟩ := exec_data_of_not_takes htext hrange hown.tstamp htakes
        have hfail : k .fatalError = .ret (0, false) := by
          rw [← hk]
          rfl
        exact .of_exec hexec hfail (hnone _) (hrows.trans (hnone _)) (hdb.of_rows rfl hrows)
          (.unfinished ⟨hown.mem, hown.cell, hown.tstamp⟩)
  | failed => cases hrest
  | unfinished => cases hrest
  | saved => cases hrest

end Move

/-! ### The receivers together -/

namespace Receivers
variable {ι : Type}

/-- The invariant. Where the tables began with `db`, every further row of data belongs to a call that has
    returned or is about to. -/
structure Tethered (db : Db) (s : Receivers ι) : Prop where
  integral : s.server.db.Integral
  place : ∀ i run, (s.receiver i).current = some run → Place s.server.db run
  log : ∀ l ∈ s.log, l.Attached s.server.db
  data : ∀ d ∈ s.server.db.data.rows, d ∈ db.data.rows ∨ (∃ l ∈ s.log, d ∈ l.dataAdded) ∨
    ∃ i run, (s.receiver i).current = some run ∧ d ∈ run.dataAdded

theorem tethered_start {server : Server} (h : server.db.Integral) (conn : ι → Bool) (todo : ι → List Call) :
    (start server conn todo).Tethered server.db where
  integral := h
  place _ _ h := by cases h
  log := List.forall_mem_nil _
  data _ h := .inl h

variable [DecidableEq ι] {db : Db} {s : Receivers ι} {i : ι}

/-- One receiver goes on, and the rows of its call stay with the new call or go to the log. -/
theorem Tethered.update (h : s.Tethered db) (i : ι) (server : Server) (r : Receiver) (log : List CallLog)
    (hintegral : server.db.Integral) (hgrows : s.server.db.Grows server.db)
    (hplace : ∀ run, r.current = some run → Place server.db run) (hlog : ∀ l ∈ log, l.Attached server.db)
    (hold : ∀ run, (s.receiver i).current = some run → ∀ d ∈ run.dataAdded,
      (∃ l ∈ log, d ∈ l.dataAdded) ∨ ∃ run', r.current = some run' ∧ d ∈ run'.dataAdded)
    (hnew : ∀ d ∈ server.db.data.rows, d ∈ s.server.db.data.rows ∨ ∃ run', r.current = some run' ∧ d ∈ run'.dataAdded) :
    (⟨server, (s.setReceiver i r).receiver, s.log ++ log⟩ : Receivers ι).Tethered db := by
  have hself : (s.setReceiver i r).receiver i = r := s.receiver_setReceiver_self i r
  have hother : ∀ j ≠ i, (s.setReceiver i r).receiver j = s.receiver j := fun j hj => s.receiver_setReceiver_of_ne hj r
  refine ⟨hintegral, fun j run hrun => ?_, fun l hl => ?_, fun d hd => ?_⟩
  · by_cases hj : j = i
    · subst hj
      exact hplace run (hself ▸ hrun)
    · exact (h.place j run (hother j hj ▸ hrun)).grow hgrows
  · rcases List.mem_append.mp hl with hl | hl
    · exact (h.log l hl).grow hgrows
    · exact hlog l hl
  · have hmine : (∃ run', r.current = some run' ∧ d ∈ run'.dataAdded) →
        ∃ j run', ((s.setReceiver i r).receiver j).current = some run' ∧ d ∈ run'.dataAdded := fun ⟨run', hrun', hd⟩ =>
      ⟨i, run', by rw [hself]; exact hrun', hd⟩
    rcases hnew d hd with hd | hd
    · rcases h.data d hd with hd | ⟨l, hl, hd⟩ | ⟨j, run, hrun, hmem⟩
      · exact .inl hd
      · exact .inr (.inl ⟨l, List.mem_append_left _ hl, hd⟩)
      · by_cases hj : j = i
        · subst hj
          rcases hold run hrun d hmem with ⟨l, hl, hd⟩ | hd
          · exact .inr (.inl ⟨l, List.mem_append_right _ hl, hd⟩)
          · exact .inr (.inr (hmine hd))
        · exact .inr (.inr ⟨j, run, by rw [hother j hj]; exact hrun, hmem⟩)
    · exact .inr (.inr (hmine hd))

theorem Tethered.step (h : s.Tethered db) : (s.step i).Tethered db := by
  have hsame : s.server.db.Grows s.server.db := ⟨List.prefix_refl _, List.prefix_refl _⟩
  cases hcur : (s.receiver i).current with
  | none =>
    cases htodo : (s.receiver i).todo with
    | nil =>
      simp only [Receivers.step, hcur, htodo]
      exact h
    | cons c todo =>
      have hnext := h.update i s.server
        { s.receiver i with todo, current := some ⟨c, saveCsi (s.receiver i).conn c.csiStatus c.csiMatrix, [], []⟩ } []
        h.integral hsame (fun run hrun => Option.some.inj hrun ▸ .begun) (List.forall_mem_nil _)
        (fun run hrun => by cases hcur.symm.trans hrun) fun d hd => .inl hd
      rw [List.append_nil] at hnext
      simp only [Receivers.step, hcur, htodo]
      exact hnext
  | some run =>
    cases hrest : run.rest with
    | ret result =>
      obtain ⟨returned, conn⟩ := result
      simp only [Receivers.step, hcur, hrest]
      refine h.update i _ _ _ h.integral hsame (fun _ hr => by cases hr) (fun l hl => ?_) (fun run' hrun' d hd => ?_) fun d hd => .inl hd
      · rw [List.mem_singleton.mp hl]
        exact (h.place i run hcur).attached hrest
      · cases hcur.symm.trans hrun'
        exact .inl ⟨_, List.mem_singleton_self _, hd⟩
    | crash =>
      -- A call crashes before it has added a row of data.
      have hnodata : run.dataAdded = [] := by
        cases h.place i run hcur with
        | saved => cases hrest
        | _ => rfl
      have hnext := h.update i s.server ⟨(s.receiver i).conn, [], none⟩ []
        h.integral hsame (fun _ hr => by cases hr) (List.forall_mem_nil _)
        (fun run' hrun' d hd => by cases hcur.symm.trans hrun'; rw [hnodata] at hd; cases hd) fun d hd => .inl hd
      rw [List.append_nil] at hnext
      simp only [Receivers.step, hcur, hrest]
      exact hnext
    | call query k =>
      have hmoves := (h.place i run hcur).advance h.integral hrest
      have hnext := h.update i (s.server.exec query).2
        { s.receiver i with current := some (run.next (k (s.server.exec query).1) s.server (s.server.exec query).2) } []
        hmoves.integral hmoves.grows (fun run' hrun' => Option.some.inj hrun' ▸ hmoves.place) (List.forall_mem_nil _)
        (fun run' hrun' d hd => by
          cases hcur.symm.trans hrun'
          exact .inr ⟨_, rfl, List.mem_append_left _ hd⟩)
        fun d hd => by
          obtain ⟨added, hadded⟩ := hmoves.grows.data
          rw [← hadded] at hd
          refine (List.mem_append.mp hd).imp_right fun hd => ⟨_, rfl, List.mem_append_right _ ?_⟩
          rwa [← hadded, List.drop_left]
      rw [List.append_nil] at hnext
      simp only [Receivers.step, hcur, hrest]
      exact hnext

theorem Tethered.run (h : s.Tethered db) (schedule : List ι) : (s.run schedule).Tethered db := by
  induction schedule generalizing s with
  | nil => exact h
  | cons i schedule ih => exact ih h.step

/-- However the receivers overtake each other, the rows of a call go as a whole to its own status or to a
    younger one, the call returns 1 if and only if they are there, and there are no other new rows. -/
theorem run_attached (server : Server) (hdb : server.db.Integral) (conn : ι → Bool) (todo : ι → List Call)
    (schedule : List ι) :
    let s := (start server conn todo).run schedule
    (∀ l ∈ s.log, l.Attached s.server.db) ∧
      ∀ d ∈ s.server.db.data.rows, d ∈ server.db.data.rows ∨ (∃ l ∈ s.log, d ∈ l.dataAdded) ∨
        ∃ i run, (s.receiver i).current = some run ∧ d ∈ run.dataAdded :=
  have h := (tethered_start hdb conn todo).run schedule
  ⟨h.log, h.data⟩

/-- Of these two receivers one is overtaken, and its rows go to the status of the other. -/
theorem run_attached_overtaken :
    ((twoReceivers.run [0, 1, 0, 1, 0, 1, 0, 1, 0, 1]).log.map fun l =>
        (l.statusAdded.map Row.id, l.dataAdded.map fun d => d.cell .statusId)) =
      [([1], [some (.int 2)]), ([2], [some (.int 2)])] ∧
    ∀ l ∈ (twoReceivers.run [0, 1, 0, 1, 0, 1, 0, 1, 0, 1]).log,
      l.Attached (twoReceivers.run [0, 1, 0, 1, 0, 1, 0, 1, 0, 1]).server.db := by
  refine ⟨by decide +kernel, ?_⟩
  unfold twoReceivers
  exact (run_attached ⟨Db.empty, fun _ => ⟨false, 0⟩⟩ Db.integral_empty (fun _ => true) (fun _ => [oneCall]) _).1

end Receivers

end AtherosCsi
