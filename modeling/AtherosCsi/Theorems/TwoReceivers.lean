import AtherosCsi.Receivers
import AtherosCsi.Theorems.SaveCsi

/-! Receivers that share a database. The id that a call finds is that of its own row as long as no other
    receiver inserts a status between the call's INSERT and its SELECT; then all calls keep apart. Nothing in
    the program keeps the others from doing so. -/

namespace AtherosCsi
open Sql

/-! ### Where a call stands -/

/-- The places at which a call can stand. Only a call that is about to ask for its id depends on the tables. -/
inductive Stage (db : Db) : Running → Prop
  | begun {c : Call} {conn : Bool} : Stage db ⟨c, saveCsi conn c.csiStatus c.csiMatrix, [], []⟩
  | inserted {c : Call} {id : ℤ} (hid : 0 < id ∧ id < 2 ^ 31) (hts : c.csiStatus.tstamp.toNat < 2 ^ 63)
      (hlatest : db.status.latest = some id) : Stage db ⟨c, selectStage c, [⟨id, statusCells c.csiStatus⟩], []⟩
  | asked {c : Call} {id : ℤ} (hid : 0 < id ∧ id < 2 ^ 31) (hts : c.csiStatus.tstamp.toNat < 2 ^ 63) :
      Stage db ⟨c, dataStage c id, [⟨id, statusCells c.csiStatus⟩], []⟩
  | failed {c : Call} {conn : Bool} {statusAdded : List StatusRow} {dataAdded : List DataRow} :
      Stage db ⟨c, .ret (0, conn), statusAdded, dataAdded⟩
  | saved {c : Call} {conn : Bool} {row : StatusRow} {dataAdded : List DataRow}
      (hown : ∀ d ∈ dataAdded, d.cell .statusId = some (.int row.id)) : Stage db ⟨c, .ret (1, conn), [row], dataAdded⟩

theorem Stage.of_latest {db db' : Db} {run : Running} (h : Stage db run) (hlatest : db'.status.latest = db.status.latest) :
    Stage db' run := by
  cases h with
  | begun => exact .begun
  | inserted hid hts hl => exact .inserted hid hts (hlatest.trans hl)
  | asked hid hts => exact .asked hid hts
  | failed => exact .failed
  | saved hown => exact .saved hown

def Apart (rs rs' : List StatusRow) : Prop := ∀ r ∈ rs, ∀ r' ∈ rs', r.id ≠ r'.id

theorem Apart.symm {rs rs' : List StatusRow} (h : Apart rs rs') : Apart rs' rs := fun r' hr' r hr => (h r hr r' hr').symm

/-! ### The statements of one call -/

def Running.next (run : Running) (rest : PgProg) (s s' : Server) : Running :=
  ⟨run.call, rest, run.statusAdded ++ s'.db.status.rows.drop s.db.status.rows.length,
    run.dataAdded ++ s'.db.data.rows.drop s.db.data.rows.length⟩

/-- What a statement of a call does: the call stands at its next place, and its rows are those it had, or
    new ones. -/
structure Advances (s s' : Server) (run run' : Running) : Prop where
  stage : Stage s'.db run'
  next : s.db.status.next ≤ s'.db.status.next
  rows : ∀ row ∈ run'.statusAdded, row.id < s'.db.status.next ∧ (row ∈ run.statusAdded ∨ s.db.status.next ≤ row.id)
  -- The largest id changes only with a new status.
  latest : s'.db.status.latest = s.db.status.latest ∨ s.TakesStatus run.call.csiStatus ∧
    run.rest.query? = some (createCsiStatusInsertQuery run.call.csiStatus)

section Advance
variable {s : Server} {run : Running} {query : List Char} {k : PGresult → PgProg}

theorem Advances.of_exec {res : PGresult} {s' : Server} {rest : PgProg} {dataAdded : List DataRow}
    (hexec : s.exec query = (res, s')) (hk : k res = rest)
    (hstatus : s'.db.status.rows = s.db.status.rows) (hdata : s'.db.data.rows = s.db.data.rows ++ dataAdded)
    (hnext : s.db.status.next ≤ s'.db.status.next) (hbelow : ∀ row ∈ run.statusAdded, row.id < s.db.status.next)
    (hstage : Stage s'.db ⟨run.call, rest, run.statusAdded, run.dataAdded ++ dataAdded⟩) :
    Advances s (s.exec query).2 run (run.next (k (s.exec query).1) s (s.exec query).2) := by
  have hrun : run.next rest s s' = ⟨run.call, rest, run.statusAdded, run.dataAdded ++ dataAdded⟩ := by
    rw [Running.next, hstatus, hdata, List.drop_left, List.drop_length, List.append_nil]
  rw [hexec, hk, hrun]
  refine ⟨hstage, hnext, fun row hrow => ⟨lt_of_lt_of_le (hbelow row hrow) hnext, Or.inl hrow⟩, Or.inl ?_⟩
  rw [Table.latest, hstatus]
  rfl

theorem Advances.of_takes {c : Call} {rest : PgProg} (htakes : s.TakesStatus c.csiStatus)
    (hrest : rest = .call (createCsiStatusInsertQuery c.csiStatus) k) (hk : k .commandOk = selectStage c) :
    Advances s (s.exec (createCsiStatusInsertQuery c.csiStatus)).2 ⟨c, rest, [], []⟩
      (Running.next ⟨c, rest, [], []⟩ (k (s.exec (createCsiStatusInsertQuery c.csiStatus)).1) s
        (s.exec (createCsiStatusInsertQuery c.csiStatus)).2) := by
  have hexec : s.exec (createCsiStatusInsertQuery c.csiStatus) = (.commandOk, s.withStatus c.csiStatus) :=
    exec_status_of_takes htakes
  have hrows : (s.withStatus c.csiStatus).db.status.rows =
      s.db.status.rows ++ [⟨s.statusTable.next, statusCells c.csiStatus⟩] := rfl
  have hdata : (s.withStatus c.csiStatus).db.data.rows = s.db.data.rows := rfl
  have hafter : (s.withStatus c.csiStatus).db.status.next = s.statusTable.next + 1 := rfl
  have hnext : s.db.status.next ≤ s.statusTable.next := by
    simp only [Server.statusTable, Table.skip]
    omega
  have hrun : Running.next ⟨c, rest, [], []⟩ (selectStage c) s (s.withStatus c.csiStatus) =
      ⟨c, selectStage c, [⟨s.statusTable.next, statusCells c.csiStatus⟩], []⟩ := by
    rw [Running.next, hrows, hdata, List.drop_left, List.drop_length]
    rfl
  have hid : s.statusTable.next < 2 ^ 31 := by
    have := htakes.2.2
    omega
  rw [hexec, hk, hrun]
  refine ⟨.inserted ⟨s.statusTable.next_pos, hid⟩ htakes.2.1 (Table.latest_insert_one _ _), hnext.trans (Int.le_of_lt (Int.lt_succ _)), ?_,
    Or.inr ⟨htakes, Prog.query?_eq_some.mpr ⟨k, hrest⟩⟩⟩
  intro row hrow
  rw [List.mem_singleton.mp hrow, hafter]
  exact ⟨Int.lt_add_one_of_le (Int.le_refl _), Or.inr hnext⟩

theorem Stage.advance (h : Stage s.db run) (hbelow : ∀ row ∈ run.statusAdded, row.id < s.db.status.next)
    (hrest : run.rest = .call query k) :
    Advances s (s.exec query).2 run (run.next (k (s.exec query).1) s (s.exec query).2) := by
  cases h with
  | @begun c conn =>
    cases conn with
    | false => cases hrest
    | true =>
      obtain ⟨rfl, hk⟩ := Prog.call.inj ((saveCsi_open c).symm.trans hrest)
      by_cases htakes : s.TakesStatus c.csiStatus
      · exact .of_takes htakes hrest (by rw [← hk]; rfl)
      · have hfail : k .fatalError = .ret (0, false) := by
          rw [← hk]
          rfl
        refine .of_exec (exec_status_of_not_takes htakes) hfail rfl (List.append_nil _).symm ?_ hbelow .failed
        simp only [Server.after, Server.statusTable, Table.skip]
        omega
  | @inserted c id hid hts hlatest =>
    obtain ⟨rfl, hk⟩ := Prog.call.inj hrest
    have hexec := exec_select s
    cases hrefuse : (s.fates 0).refuse with
    | true =>
      rw [hrefuse] at hexec
      have hfail : k .fatalError = .ret (0, false) := by rw [← hk]
      exact .of_exec hexec hfail rfl (List.append_nil _).symm (Int.le_refl _) hbelow .failed
    | false =>
      rw [hrefuse, hlatest] at hexec
      have hfound : k (.tuplesOk (some (decimal id))) = dataStage c id := by
        simp only [← hk, atoi_decimal hid]
        rw [if_neg (by omega)]
      exact .of_exec hexec hfound rfl (List.append_nil _).symm (Int.le_refl _) hbelow (.asked hid hts)
  | @asked c id hid hts =>
    have hrange : -(2 ^ 31) ≤ id ∧ id < 2 ^ 31 := by omega
    cases htext : csiDataQuery id c.csiStatus c.csiMatrix with
    | none =>
      simp only [dataStage, htext] at hrest
      cases hrest
    | some text =>
      simp only [dataStage, htext] at hrest
      obtain ⟨rfl, hk⟩ := Prog.call.inj hrest
      by_cases htakes : s.TakesData c.csiStatus
      · have hsaved : k .commandOk = .ret (1, true) := by
          rw [← hk]
          rfl
        exact .of_exec (exec_data_of_takes htext hrange hts htakes) hsaved rfl rfl (Int.le_refl _) hbelow
          (.saved fun d hd => statusId_of_mem_numbered hd)
      · obtain ⟨data, hexec, hrows⟩ := exec_data_of_not_takes htext hrange hts htakes
        have hfail : k .fatalError = .ret (0, false) := by
          rw [← hk]
          rfl
        exact .of_exec hexec hfail rfl (hrows.trans (List.append_nil _).symm) (Int.le_refl _) hbelow .failed
  | failed => cases hrest
  | saved hown => cases hrest

end Advance

/-! ### The receivers together -/

namespace Receivers
variable {ι : Type}

/-- Receiver `i` is about to insert a status, which the server will take, while another receiver has inserted
    its own and not yet asked for its id. -/
def Overtakes (s : Receivers ι) (i : ι) : Prop :=
  (∃ run ∈ (s.receiver i).current, run.rest.query? = some (createCsiStatusInsertQuery run.call.csiStatus) ∧
    s.server.TakesStatus run.call.csiStatus) ∧
  ∃ j, j ≠ i ∧ (s.receiver j).query? = some selectQuery

/-- The calls that returned 1 have kept apart: the data of each one names the status that the call itself has
    added, and no other such call's data names it. -/
structure Separate (s : Receivers ι) : Prop where
  own : ∀ l ∈ s.log, l.returned = 1 → ∃ row, l.statusAdded = [row] ∧ ∀ d ∈ l.dataAdded, d.cell .statusId = some (.int row.id)
  apart : s.log.Pairwise fun l l' => l.returned = 1 → l'.returned = 1 →
    ∀ d ∈ l.dataAdded, ∀ d' ∈ l'.dataAdded, d.cell .statusId ≠ d'.cell .statusId

/-- The invariant: every call stands at one of its places, and no two calls have a status in common. -/
structure Inv (s : Receivers ι) : Prop where
  stage : ∀ i run, (s.receiver i).current = some run → Stage s.server.db run
  below : ∀ i run, (s.receiver i).current = some run → ∀ row ∈ run.statusAdded, row.id < s.server.db.status.next
  apart : ∀ i j run run', i ≠ j → (s.receiver i).current = some run → (s.receiver j).current = some run' →
    Apart run.statusAdded run'.statusAdded
  logBelow : ∀ l ∈ s.log, ∀ row ∈ l.statusAdded, row.id < s.server.db.status.next
  logApart : ∀ l ∈ s.log, ∀ i run, (s.receiver i).current = some run → Apart l.statusAdded run.statusAdded
  logPairwise : s.log.Pairwise fun l l' => Apart l.statusAdded l'.statusAdded
  own : ∀ l ∈ s.log, l.returned = 1 → ∃ row, l.statusAdded = [row] ∧ ∀ d ∈ l.dataAdded, d.cell .statusId = some (.int row.id)

theorem inv_start (server : Server) (conn : ι → Bool) (todo : ι → List Call) : (start server conn todo).Inv where
  stage _ _ h := nomatch h
  below _ _ h := nomatch h
  apart _ _ _ _ _ h := nomatch h
  logBelow _ h := nomatch h
  logApart _ h := nomatch h
  logPairwise := .nil
  own _ h := nomatch h

theorem Inv.separate {s : Receivers ι} (h : s.Inv) : s.Separate where
  own := h.own
  apart := by
    refine h.logPairwise.imp_of_mem fun {l l'} hl hl' hapart hone hone' d hd d' hd' heq => ?_
    obtain ⟨row, hrow, hid⟩ := h.own l hl hone
    obtain ⟨row', hrow', hid'⟩ := h.own l' hl' hone'
    rw [hid d hd, hid' d' hd', Option.some.injEq, Cell.int.injEq] at heq
    exact hapart row (hrow ▸ List.mem_singleton_self row) row' (hrow' ▸ List.mem_singleton_self row') heq

variable [DecidableEq ι]

instance [Fintype ι] (s : Receivers ι) (i : ι) : Decidable (s.Overtakes i) := by unfold Overtakes; infer_instance

def Orderly (s : Receivers ι) : List ι → Prop
  | [] => True
  | i :: is => ¬ s.Overtakes i ∧ (s.step i).Orderly is

instance decidableOrderly [Fintype ι] : (s : Receivers ι) → (is : List ι) → Decidable (s.Orderly is)
  | _, [] => isTrue trivial
  | s, i :: is =>
    have := decidableOrderly (s.step i) is
    inferInstanceAs (Decidable (¬ s.Overtakes i ∧ (s.step i).Orderly is))

variable {s : Receivers ι} {i : ι}

/-- One receiver goes on, and keeps its rows or gets new ones; for the others nothing changes that they
    depend on. -/
theorem Inv.update (h : s.Inv) {server : Server} {r : Receiver} (hnext : s.server.db.status.next ≤ server.db.status.next)
    (hothers : ∀ j ≠ i, ∀ run, (s.receiver j).current = some run → Stage server.db run)
    (hstage : ∀ run, r.current = some run → Stage server.db run)
    (hrows : ∀ run, r.current = some run → ∀ row ∈ run.statusAdded, row.id < server.db.status.next ∧
      ((∃ old, (s.receiver i).current = some old ∧ row ∈ old.statusAdded) ∨ s.server.db.status.next ≤ row.id)) :
    ({ s.setReceiver i r with server } : Receivers ι).Inv := by
  have hself : ({ s.setReceiver i r with server } : Receivers ι).receiver i = r := s.receiver_setReceiver_self i r
  have hother : ∀ j ≠ i, ({ s.setReceiver i r with server } : Receivers ι).receiver j = s.receiver j := fun j hj =>
    s.receiver_setReceiver_of_ne hj r
  -- Rows below the old sequence that the old call did not have are apart from those of the new one.
  have hapart : ∀ {rs : List StatusRow}, (∀ row ∈ rs, row.id < s.server.db.status.next) →
      (∀ old, (s.receiver i).current = some old → Apart rs old.statusAdded) →
      ∀ run, r.current = some run → Apart rs run.statusAdded := by
    intro rs hbelow hold run hrun a ha b hb
    rcases (hrows run hrun b hb).2 with ⟨old, hcur, hmem⟩ | hnew
    · exact hold old hcur a ha b hmem
    · exact (lt_of_lt_of_le (hbelow a ha) hnew).ne
  constructor
  · intro j run hrun
    by_cases hj : j = i
    · subst hj
      rw [hself] at hrun
      exact hstage run hrun
    · rw [hother j hj] at hrun
      exact hothers j hj run hrun
  · intro j run hrun row hrow
    by_cases hj : j = i
    · subst hj
      rw [hself] at hrun
      exact (hrows run hrun row hrow).1
    · rw [hother j hj] at hrun
      exact lt_of_lt_of_le (h.below j run hrun row hrow) hnext
  · intro j k run run' hjk hrun hrun'
    by_cases hj : j = i
    · subst hj
      rw [hself] at hrun
      rw [hother k hjk.symm] at hrun'
      exact (hapart (h.below k run' hrun') (fun old hold => h.apart k j run' old hjk.symm hrun' hold) run hrun).symm
    · rw [hother j hj] at hrun
      by_cases hk : k = i
      · subst hk
        rw [hself] at hrun'
        exact hapart (h.below j run hrun) (fun old hold => h.apart j k run old hjk hrun hold) run' hrun'
      · rw [hother k hk] at hrun'
        exact h.apart j k run run' hjk hrun hrun'
  · exact fun l hl row hrow => lt_of_lt_of_le (h.logBelow l hl row hrow) hnext
  · intro l hl j run hrun
    by_cases hj : j = i
    · subst hj
      rw [hself] at hrun
      exact hapart (h.logBelow l hl) (fun old hold => h.logApart l hl j old hold) run hrun
    · rw [hother j hj] at hrun
      exact h.logApart l hl j run hrun
  · exact h.logPairwise
  · exact h.own

theorem Inv.finish (h : s.Inv) {run : Running} {returned : ℤ} {conn : Bool} (hcur : (s.receiver i).current = some run)
    (hrest : run.rest = .ret (returned, conn)) (r : Receiver) (hr : r.current = none) :
    ({ s.setReceiver i r with log := s.log ++ [⟨run.call, returned, run.statusAdded, run.dataAdded⟩] } : Receivers ι).Inv := by
  have hidle : (s.setReceiver i r).Inv :=
    h.update (Int.le_refl _) (fun j _ run' hrun' => h.stage j run' hrun') (fun _ hr' => nomatch hr.symm.trans hr')
      (fun _ hr' => nomatch hr.symm.trans hr')
  have hother : ∀ j run', ((s.setReceiver i r).receiver j).current = some run' → j ≠ i ∧ (s.receiver j).current = some run' := by
    intro j run' hrun'
    by_cases hj : j = i
    · subst hj
      rw [receiver_setReceiver_self, hr] at hrun'
      cases hrun'
    · rw [receiver_setReceiver_of_ne s hj] at hrun'
      exact ⟨hj, hrun'⟩
  have hsound : returned = 1 → ∃ row, run.statusAdded = [row] ∧ ∀ d ∈ run.dataAdded, d.cell .statusId = some (.int row.id) := by
    intro hone
    subst hone
    cases h.stage i run hcur with
    | @begun c conn' =>
      cases conn' with
      | false => cases hrest
      | true => exact nomatch (saveCsi_open c).symm.trans hrest
    | inserted => cases hrest
    | @asked c id =>
      cases htext : csiDataQuery id c.csiStatus c.csiMatrix <;> simp only [dataStage, htext] at hrest <;> cases hrest
    | failed => cases hrest
    | saved hown => exact ⟨_, rfl, hown⟩
  have hlog : ∀ l ∈ s.log, Apart l.statusAdded run.statusAdded := fun l hl => h.logApart l hl i run hcur
  exact
    { hidle with
      logBelow := by
        intro l hl
        rcases List.mem_append.mp hl with hl | hl
        · exact h.logBelow l hl
        · rw [List.mem_singleton.mp hl]
          exact h.below i run hcur
      logApart := by
        intro l hl j run' hrun'
        obtain ⟨hj, hrun'⟩ := hother j run' hrun'
        rcases List.mem_append.mp hl with hl | hl
        · exact h.logApart l hl j run' hrun'
        · rw [List.mem_singleton.mp hl]
          exact h.apart i j run run' hj.symm hcur hrun'
      logPairwise := by
        rw [List.pairwise_append]
        refine ⟨h.logPairwise, List.pairwise_singleton _ _, fun l hl l' hl' => ?_⟩
        rw [List.mem_singleton.mp hl']
        exact hlog l hl
      own := by
        intro l hl hone
        rcases List.mem_append.mp hl with hl | hl
        · exact h.own l hl hone
        · rw [List.mem_singleton.mp hl] at hone ⊢
          exact hsound hone }

theorem Inv.step (h : s.Inv) (hover : ¬ s.Overtakes i) : (s.step i).Inv := by
  cases hcur : (s.receiver i).current with
  | none =>
    cases htodo : (s.receiver i).todo with
    | nil =>
      simp only [Receivers.step, hcur, htodo]
      exact h
    | cons c todo =>
      simp only [Receivers.step, hcur, htodo]
      refine h.update (Int.le_refl _) (fun j _ run hrun => h.stage j run hrun) ?_ ?_
      · intro run hrun
        cases hrun
        exact .begun
      · intro run hrun
        cases hrun
        exact fun row hrow => nomatch hrow
  | some run =>
    cases hrest : run.rest with
    | ret result =>
      obtain ⟨returned, conn⟩ := result
      simp only [Receivers.step, hcur, hrest]
      exact h.finish hcur hrest _ rfl
    | crash =>
      simp only [Receivers.step, hcur, hrest]
      exact h.update (Int.le_refl _) (fun j _ run hrun => h.stage j run hrun) (fun _ hr => nomatch hr) (fun _ hr => nomatch hr)
    | call query k =>
      have hadv := (h.stage i run hcur).advance (h.below i run hcur) hrest
      simp only [Receivers.step, hcur, hrest]
      refine h.update hadv.next ?_ ?_ ?_
      · intro j hj run' hrun'
        have hstage := h.stage j run' hrun'
        rcases hadv.latest with hlatest | ⟨htakes, hinsert⟩
        · exact hstage.of_latest hlatest
        · -- A call that has yet to ask for its id would be overtaken.
          cases hstage with
          | begun => exact .begun
          | inserted => exact absurd ⟨⟨run, hcur, hinsert, htakes⟩, j, hj, by rw [Receiver.query?, hrun']; rfl⟩ hover
          | asked hid hts => exact .asked hid hts
          | failed => exact .failed
          | saved hown => exact .saved hown
      · intro run' hrun'
        cases hrun'
        exact hadv.stage
      · intro run' hrun' row hrow
        cases hrun'
        exact ⟨(hadv.rows row hrow).1, (hadv.rows row hrow).2.imp_left fun hmem => ⟨run, hcur, hmem⟩⟩

theorem Inv.run (schedule : List ι) (h : s.Inv) (hsched : s.Orderly schedule) : (s.run schedule).Inv := by
  induction schedule generalizing s with
  | nil => exact h
  | cons i schedule ih => exact ih (h.step hsched.1) hsched.2

/-- In a run in which no receiver overtakes another, all calls keep apart. -/
theorem run_separate (server : Server) (conn : ι → Bool) (todo : ι → List Call) (schedule : List ι)
    (hsched : (start server conn todo).Orderly schedule) : ((start server conn todo).run schedule).Separate :=
  ((inv_start server conn todo).run schedule hsched).separate

def twoReceivers : Receivers (Fin 2) := start ⟨Db.empty, fun _ => ⟨false, 0⟩⟩ (fun _ => true) fun _ => [oneCall]

/-- Here the second receiver inserts its status while the first one has yet to insert its data. -/
theorem run_separate_orderly : twoReceivers.Orderly [0, 1, 0, 0, 1, 0, 0, 1, 1, 1] ∧
    (twoReceivers.run [0, 1, 0, 0, 1, 0, 0, 1, 1, 1]).log.map CallLog.returned = [1, 1] ∧
    (twoReceivers.run [0, 1, 0, 0, 1, 0, 0, 1, 1, 1]).Separate := by
  have hsched : twoReceivers.Orderly [0, 1, 0, 0, 1, 0, 0, 1, 1, 1] := by decide +kernel
  exact ⟨hsched, by decide +kernel, run_separate _ _ _ _ hsched⟩

/-- Here it does so before the first one asks for its id, and both end up with the id of the second. -/
theorem not_separate_overtaken : ¬ (twoReceivers.run [0, 1, 0, 1, 0, 1, 0, 1, 0, 1]).Separate := by
  have hlog : (twoReceivers.run [0, 1, 0, 1, 0, 1, 0, 1, 0, 1]).log.map (fun l => (l.returned, l.statusAdded.map Row.id,
      l.dataAdded.map fun d => d.cell .statusId)) = [(1, [1], [some (.int 2)]), (1, [2], [some (.int 2)])] := by
    decide +kernel
  intro h
  obtain ⟨l, ls, hsplit, hl, -⟩ := List.map_eq_cons_iff.mp hlog
  simp only [Prod.mk.injEq] at hl
  obtain ⟨hone, hstatus, hdata⟩ := hl
  obtain ⟨d, ds, hdrows, hd, -⟩ := List.map_eq_cons_iff.mp hdata
  obtain ⟨row, hrow, hid⟩ := h.own l (hsplit ▸ List.mem_cons_self) hone
  rw [hrow] at hstatus
  have hrowId : row.id = 1 := (List.cons.inj hstatus).1
  have hdId := hid d (hdrows ▸ List.mem_cons_self)
  rw [hd, hrowId] at hdId
  exact absurd hdId (by decide)

end Receivers

end AtherosCsi
