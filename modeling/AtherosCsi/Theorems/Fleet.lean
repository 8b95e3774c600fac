import AtherosCsi.Theorems.Startup

/-! Any number of receivers on one database, each a whole run of `main`, whose requests reach the server in
    any order; some may be killed, others start later. They may overtake each other, and a row of data may
    then name the status of another packet. But the status that it names exists, although no foreign key
    demands it: a receiver names only an id that it has read, and nothing deletes rows. -/

namespace AtherosCsi
open Sql

/-! ### What the tables keep to -/

/-- Keys are distinct, and every row of data names a status. -/
structure Db.Integral (db : Db) : Prop where
  ids : ∀ r ∈ db.status.rows, 0 < r.id ∧ r.id < 2 ^ 31
  statusKeys : (db.status.rows.map Row.id).Nodup
  dataKeys : (db.data.rows.map Row.id).Nodup
  refers : ∀ d ∈ db.data.rows, ∃ r ∈ db.status.rows, d.cell .statusId = some (.int r.id)

/-- The stages that `csi_init_table` passes through, each for both tables at once. -/
inductive Catalog.Integral : Catalog → Prop
  | missing : Integral ⟨.missing, .missing⟩
  | sequences : Integral ⟨.sequence, .sequence⟩
  | tables {db : Db} (h : db.Integral) : Integral (.ofDb db)

theorem Db.integral_empty : Db.empty.Integral where
  ids _ h := absurd h List.not_mem_nil
  statusKeys := .nil
  dataKeys := .nil
  refers _ h := absurd h List.not_mem_nil

/-- A table keeps its rows, and new ones come behind them. -/
inductive Slot.Grows {κ : Type} : Slot κ → Slot κ → Prop
  | missing (s : Slot κ) : Grows .missing s
  | sequence : Grows .sequence .sequence
  | created (t : Table κ) : Grows .sequence (.table t)
  | table {t t' : Table κ} (h : t.rows <+: t'.rows) : Grows (.table t) (.table t')

theorem Slot.Grows.refl {κ : Type} (s : Slot κ) : s.Grows s := by
  cases s with
  | missing => exact .missing _
  | sequence => exact .sequence
  | table t => exact .table (List.prefix_refl _)

theorem Slot.Grows.trans {κ : Type} {a b c : Slot κ} (h : a.Grows b) (h' : b.Grows c) : a.Grows c := by
  cases h with
  | missing => exact .missing _
  | sequence => exact h'
  | created =>
    cases h'
    exact .created _
  | table h =>
    cases h' with
    | table h' => exact .table (h.trans h')

theorem Slot.Grows.rows {κ : Type} {a b : Slot κ} (h : a.Grows b) : a.rows <+: b.rows := by
  cases h with
  | missing => exact List.nil_prefix
  | sequence => exact List.nil_prefix
  | created => exact List.nil_prefix
  | table h => exact h

structure Catalog.Grows (a b : Catalog) : Prop where
  status : a.status.Grows b.status
  data : a.data.Grows b.data

theorem Catalog.Grows.refl (a : Catalog) : a.Grows a := ⟨.refl _, .refl _⟩

theorem Catalog.Grows.trans {a b c : Catalog} (h : a.Grows b) (h' : b.Grows c) : a.Grows c :=
  ⟨h.status.trans h'.status, h.data.trans h'.data⟩

/-! ### Statements -/

section Insert
variable {db : Db}

theorem Db.Integral.of_rows {db' : Db} (h : db.Integral) (hstatus : db'.status.rows = db.status.rows)
    (hdata : db'.data.rows = db.data.rows) : db'.Integral := by
  refine ⟨?_, ?_, ?_, ?_⟩
  · rw [hstatus]
    exact h.ids
  · rw [hstatus]
    exact h.statusKeys
  · rw [hdata]
    exact h.dataKeys
  · rw [hstatus, hdata]
    exact h.refers

theorem Db.Integral.insertStatus (h : db.Integral) (cells : StatusColumn → Option Cell) (hnext : db.status.next < 2 ^ 31) :
    ({ db with status := db.status.insert [cells] } : Db).Integral where
  ids r hr := by
    rcases List.mem_append.mp hr with hr | hr
    · exact h.ids r hr
    · rw [List.mem_singleton.mp hr]
      exact ⟨db.status.next_pos, hnext⟩
  statusKeys := Table.nodup_insert h.statusKeys _
  dataKeys := h.dataKeys
  refers d hd := by
    obtain ⟨r, hr, hid⟩ := h.refers d hd
    exact ⟨r, List.mem_append_left _ hr, hid⟩

theorem Db.Integral.insertData (h : db.Integral) {row : StatusRow} (hrow : row ∈ db.status.rows) (st : CsiStruct) (m : CsiMatrix) :
    ({ db with data := db.data.insert (dataRows row.id st m) } : Db).Integral where
  ids := h.ids
  statusKeys := h.statusKeys
  dataKeys := Table.nodup_insert h.dataKeys _
  refers d hd := by
    rcases List.mem_append.mp hd with hd | hd
    · exact h.refers d hd
    · exact ⟨row, hrow, statusId_of_mem_numbered hd⟩

end Insert

theorem Catalog.Integral.createSequences {cat : Catalog} (h : cat.Integral) (fate : Fate) :
    (cat.exec fate .createSequences).2.Integral ∧ cat.Grows (cat.exec fate .createSequences).2 := by
  obtain ⟨refuse, skip⟩ := fate
  cases h with
  | missing =>
    cases refuse with
    | false => exact ⟨.sequences, .missing _, .missing _⟩
    | true => exact ⟨.missing, .refl _⟩
  | sequences => cases refuse <;> exact ⟨.sequences, .refl _⟩
  | tables hdb => cases refuse <;> exact ⟨.tables hdb, .refl _⟩

theorem Catalog.Integral.createTables {cat : Catalog} (h : cat.Integral) (fate : Fate) :
    (cat.exec fate .createTables).2.Integral ∧ cat.Grows (cat.exec fate .createTables).2 := by
  obtain ⟨refuse, skip⟩ := fate
  cases h with
  | missing => cases refuse <;> exact ⟨.missing, .refl _⟩
  | sequences =>
    cases refuse with
    | false => exact ⟨.tables Db.integral_empty, .created _, .created _⟩
    | true => exact ⟨.sequences, .refl _⟩
  | tables hdb => cases refuse <;> exact ⟨.tables hdb, .refl _⟩

/-- A text that is no statement about rows leaves both tables at the same stage. -/
theorem Cluster.exec_create {s : Cluster} (hs : s.catalog.Integral) {text : List Char} (h : parseStatement text = none) :
    (s.exec text).2.catalog.Integral ∧ s.catalog.Grows (s.exec text).2.catalog := by
  have hrequest : parseRequest s.role text = none ∨ parseRequest s.role text = some .createSequences ∨
      parseRequest s.role text = some .createTables := by
    unfold parseRequest
    rw [h]
    split
    · exact .inr (.inl rfl)
    · split
      · exact .inr (.inr rfl)
      · exact .inl rfl
  unfold Cluster.exec
  rcases hrequest with h | h | h <;> rw [h]
  · exact ⟨hs, .refl _⟩
  · exact hs.createSequences _
  · exact hs.createTables _

/-- Either there are no tables yet, and no statement about their rows has an effect, or both are there. -/
theorem Cluster.tables_or {s : Cluster} (hs : s.catalog.Integral) :
    (s.catalog.status.rows = [] ∧ ∀ text, IsSave text → s.exec text = (.fatalError, s.after s.catalog)) ∨
      ∃ role server, s = .ofServer role server ∧ server.db.Integral := by
  obtain ⟨role, catalog, fates⟩ := s
  have hnone : catalog = ⟨.missing, .missing⟩ ∨ catalog = ⟨.sequence, .sequence⟩ → ∀ text, IsSave text →
      Cluster.exec ⟨role, catalog, fates⟩ text = (.fatalError, Cluster.after ⟨role, catalog, fates⟩ catalog) := by
    intro hcat text h
    simp only [Cluster.exec, h.parseRequest]
    cases parseStatement text with
    | none => rfl
    | some stmt => rcases hcat with rfl | rfl <;> cases stmt <;> rfl
  cases hs with
  | missing => exact .inl ⟨rfl, hnone (.inl rfl)⟩
  | sequences => exact .inl ⟨rfl, hnone (.inr rfl)⟩
  | @tables db hdb => exact .inr ⟨role, ⟨db, fates⟩, rfl, hdb⟩

/-! ### One receiver among others -/

/-- The program keeps the database as it should be, whatever the others do, and deletes nothing. -/
structure Safe {α : Type} (p : Prog (List Char) PGresult α) (s : Cluster) : Prop where
  keeps : p.Keeps Cluster.exec (fun s => s.catalog.Integral) (fun s t => s.catalog.Grows t.catalog) (fun _ _ => True) s

theorem safe_ret {α : Type} (a : α) (s : Cluster) : Safe (.ret a) s := ⟨fun _ _ _ => trivial⟩

theorem safe_crash {α : Type} (s : Cluster) : Safe (.crash : Prog (List Char) PGresult α) s := ⟨trivial⟩

theorem Safe.bind {α β : Type} {p : Prog (List Char) PGresult α} {f : α → Prog (List Char) PGresult β} {s : Cluster} (h : Safe p s)
    (hs : s.catalog.Integral) (hf : ∀ a s', s'.catalog.Integral → Safe (f a) s') : Safe (p.bind f) s :=
  ⟨Prog.Keeps.bind (fun s => .refl s.catalog) h.keeps hs fun a s' hs' _ => (hf a s' hs').keeps⟩

/-- What the server does with a request leaves the database as it should be, and so does what follows. -/
structure Answers {α : Type} (s : Cluster) (q : List Char) (k : PGresult → Prog (List Char) PGresult α) : Prop where
  integral : (s.exec q).2.catalog.Integral
  grows : s.catalog.Grows (s.exec q).2.catalog
  rest : Safe (k (s.exec q).1) (s.exec q).2

section Call
variable {α : Type} {s : Cluster} {q : List Char} {k : PGresult → Prog (List Char) PGresult α}

theorem safe_call (h : ∀ s', s.catalog.Grows s'.catalog → s'.catalog.Integral → Answers s' q k) : Safe (.call q k) s :=
  ⟨fun s' hgrows hs' =>
    have h := h s' hgrows hs'
    ⟨h.integral, h.grows, h.rest.keeps⟩⟩

theorem Answers.of_exec {res : PGresult} {t : Cluster} {p : Prog (List Char) PGresult α} (hexec : s.exec q = (res, t))
    (hk : k res = p) (integral : t.catalog.Integral) (grows : s.catalog.Grows t.catalog) (rest : Safe p t) : Answers s q k := by
  constructor
  · rwa [hexec]
  · rwa [hexec]
  · rwa [hexec, hk]

theorem Answers.failed {a : α} (hexec : s.exec q = (.fatalError, s.after s.catalog)) (hk : k .fatalError = .ret a)
    (hs : s.catalog.Integral) : Answers s q k :=
  .of_exec hexec hk hs (.refl _) (safe_ret _ _)

end Call

/-- A receiver that has read the id of a status may name it: the status is there to stay. -/
theorem dataStage_safe {c : Call} (hts : c.csiStatus.tstamp.toNat < 2 ^ 63) {s : Cluster} {row : StatusRow}
    (hrow : row ∈ s.catalog.status.rows) : Safe (dataStage c row.id) s := by
  unfold dataStage
  split
  · exact safe_crash _
  · rename_i text htext
    refine safe_call fun s' hgrows hs' => ?_
    have hrow' := hgrows.status.rows.subset hrow
    rcases Cluster.tables_or hs' with ⟨hempty, -⟩ | ⟨role, server, rfl, hdb⟩
    · rw [hempty] at hrow'
      cases hrow'
    · have hid := hdb.ids row hrow'
      have hrange : -(2 ^ 31) ≤ row.id ∧ row.id < 2 ^ 31 := by omega
      have hexec := Cluster.exec_ofServer role server (isSave_csiDataQuery htext)
      by_cases htakes : server.TakesData c.csiStatus
      · rw [exec_data_of_takes htext hrange hts htakes] at hexec
        have hskip : ({ server.db with data := server.dataTable } : Db).Integral := hdb.of_rows rfl rfl
        exact .of_exec hexec rfl (.tables (hskip.insertData hrow' c.csiStatus c.csiMatrix))
          ⟨.table (List.prefix_refl _), .table (List.prefix_append _ _)⟩ (safe_ret _ _)
      · obtain ⟨data, hfail, hrows⟩ := exec_data_of_not_takes htext hrange hts htakes
        rw [hfail] at hexec
        exact .of_exec hexec rfl (.tables (hdb.of_rows rfl hrows))
          ⟨.table (List.prefix_refl _), .table (hrows ▸ List.prefix_refl _)⟩ (safe_ret _ _)

theorem selectStage_safe {c : Call} (hts : c.csiStatus.tstamp.toNat < 2 ^ 63) (s : Cluster) : Safe (selectStage c) s := by
  rw [selectStage]
  refine safe_call fun s' _ hs' => ?_
  rcases Cluster.tables_or hs' with ⟨-, hnone⟩ | ⟨role, server, rfl, hdb⟩
  · exact .failed (hnone _ isSave_selectQuery) rfl hs'
  · have hexec := Cluster.exec_ofServer role server isSave_selectQuery
    rw [exec_select] at hexec
    split at hexec
    · exact .of_exec hexec rfl (.tables hdb) (.refl _) (safe_ret _ _)
    · cases hlatest : server.db.status.latest with
      | none =>
        rw [hlatest] at hexec
        exact .of_exec hexec rfl (.tables hdb) (.refl _) (safe_crash _)
      | some id =>
        obtain ⟨row, hrow, rfl⟩ := List.mem_map.mp (List.max?_mem hlatest)
        rw [hlatest, Option.map_some] at hexec
        refine .of_exec hexec ?_ (.tables hdb) (.refl _) (dataStage_safe hts hrow)
        simp only [atoi_decimal (hdb.ids row hrow)]
        rw [if_neg (Int.ne_of_gt (hdb.ids row hrow).1)]

theorem saveCsi_safe (conn : Bool) (c : Call) (s : Cluster) : Safe (saveCsi conn c.csiStatus c.csiMatrix) s := by
  cases conn with
  | false => exact safe_ret _ _
  | true =>
    rw [saveCsi_open]
    refine safe_call fun s' _ hs' => ?_
    rcases Cluster.tables_or hs' with ⟨-, hnone⟩ | ⟨role, server, rfl, hdb⟩
    · exact .failed (hnone _ (isSave_statusQuery c.csiStatus)) rfl hs'
    · have hexec := Cluster.exec_ofServer role server (isSave_statusQuery c.csiStatus)
      have hskip : ({ server.db with status := server.statusTable } : Db).Integral := hdb.of_rows rfl rfl
      by_cases htakes : server.TakesStatus c.csiStatus
      · rw [exec_status_of_takes htakes] at hexec
        have hnext : server.statusTable.next < 2 ^ 31 := Int.lt_of_add_one_le htakes.2.2
        exact .of_exec hexec rfl (.tables (hskip.insertStatus _ hnext))
          ⟨.table (List.prefix_append _ _), .table (List.prefix_refl _)⟩ (selectStage_safe htakes.2.1 _)
      · rw [exec_status_of_not_takes htakes] at hexec
        exact .of_exec hexec rfl (.tables hskip) ⟨.table (List.prefix_refl _), .table (List.prefix_refl _)⟩ (safe_ret _ _)

theorem csiInitTable_safe (conn : Bool) (user : List Char) (s : Cluster) : Safe (csiInitTable conn user) s := by
  cases conn with
  | false => exact safe_ret _ _
  | true =>
    rcases written_cases 1200 (createSequencesQuery user) with hlong | hfits
    · rw [csiInitTable_crash hlong]
      exact safe_crash _
    · rw [csiInitTable_open hfits]
      refine safe_call fun s' _ hs' => ?_
      obtain ⟨hfirst, hgrows⟩ := Cluster.exec_create hs' (parseStatement_createSequences user)
      refine ⟨hfirst, hgrows, safe_call fun s' _ hs' => ?_⟩
      obtain ⟨hsecond, hgrows⟩ := Cluster.exec_create hs' parseStatement_createTables
      refine ⟨hsecond, hgrows, ?_⟩
      split <;> exact safe_ret _ _

theorem recvRounds_safe (h : Host) (rs : List Round) (g : DbGlobals) (conn : Bool) {s : Cluster} (hs : s.catalog.Integral) :
    Safe (recvRounds h g conn rs) s := by
  induction rs generalizing g conn s with
  | nil => exact safe_ret _ _
  | cons r rs ih =>
    rw [recvRounds]
    rcases decodeRound h g r with _ | ⟨g', _ | c⟩
    · exact safe_crash _
    · exact ih g' conn hs
    · exact (saveCsi_safe conn c s).bind hs fun res s' hs' => ih g' res.2 hs'

theorem recvMain_safe (h : Host) (m : Startup) (g : DbGlobals) (rs : List Round) {s : Cluster} (hs : s.catalog.Integral) :
    Safe (recvMain h m g rs) s := by
  unfold recvMain
  split
  · exact safe_crash _
  · split
    · exact safe_crash _
    · split
      · exact safe_ret _ _
      · split
        · exact safe_ret _ _
        · exact (csiInitTable_safe _ _ s).bind hs fun res s' hs' => recvRounds_safe h rs g res.2 hs'

/-! ### The receivers together -/

/-- A run of the program: its host, its start and memory, and what it receives until it is interrupted. -/
structure RecvRun where
  host : Host
  startup : Startup
  globals : DbGlobals
  rounds : List Round

def RecvRun.prog (r : RecvRun) : Prog (List Char) PGresult Bool := recvMain r.host r.startup r.globals r.rounds

/-- In whatever order the server takes the requests of all receivers, the keys stay distinct, no row is lost,
    and every row of data names a status that exists. -/
theorem fleet_integral {ι : Type} [DecidableEq ι] (receivers : ι → RecvRun) (s : Cluster) (hs : s.catalog.Integral)
    (schedule : List ι) :
    let t := (System.run Cluster.exec ⟨s, fun i => (receivers i).prog⟩ schedule).server
    t.catalog.Integral ∧ s.catalog.Grows t.catalog := by
  obtain ⟨hint, hgrows, -⟩ := System.run_keeps Cluster.exec (fun s => s.catalog.Integral)
    (fun s t => s.catalog.Grows t.catalog) (fun _ _ _ => True) (fun s => .refl s.catalog) (fun _ _ _ => .trans) schedule
    (s := ⟨s, fun i => (receivers i).prog⟩) hs fun i => (recvMain_safe _ _ _ _ hs).keeps
  exact ⟨hint, hgrows⟩

/-- Two receivers that start at the same time, on a database without tables. -/
def twoRuns : Fin 2 → RecvRun := fun _ => ⟨Host.x86, plainStartup, zeroGlobals, [oneRound]⟩

theorem fleet_integral_two : newCluster.catalog.Integral ∧
    (System.run Cluster.exec ⟨newCluster, fun i => (twoRuns i).prog⟩ [0, 1, 0, 1, 0, 1, 0, 1, 0, 1]).server.catalog.Integral :=
  ⟨.missing, (fleet_integral twoRuns newCluster .missing _).1⟩

end AtherosCsi
