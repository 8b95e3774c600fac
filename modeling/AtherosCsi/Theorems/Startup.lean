import AtherosCsi.Catalog
import AtherosCsi.Theorems.Connection
import AtherosCsi.Theorems.Outage

/-! The start of the database receiver, and what becomes of a whole run. The first text of `csi_init_table`
    fails at every start but the first, and that does no harm: what counts is that in the end both tables
    exist. Then the run is that of the loop on the tables as earlier runs have left them. Otherwise the
    connection is closed before the loop begins, and the run stores nothing. -/

namespace AtherosCsi
open Sql

/-! ### Texts -/

/-- A text that creates something is no statement about rows. -/
theorem parseStatement_create (rest : List Char) : parseStatement ("CREATE ".toList ++ rest) = none := by
  have hlex : lex ("CREATE ".toList ++ rest) = (lex rest).map (.word "CREATE".toList :: ·) := by
    simp [lex, lexFrom, isWordChar]
  have hselect : lex selectQuery = some (.word "SELECT".toList :: (lex selectQuery).get!.tail) := by decide +kernel
  simp only [parseStatement, hlex]
  cases lex rest with
  | none => rfl
  | some ts =>
    simp only [Option.map_some, Option.bind_eq_bind, Option.bind_some]
    rw [if_neg, if_neg, if_neg]
    · rw [hselect]
      simp
    · simp [insertHead]
    · simp [insertHead]

theorem createSequencesQuery_eq (user : List Char) : ∃ rest, createSequencesQuery user = "CREATE S".toList ++ rest := by
  have hhead : ∀ rest, ∃ rest', "CREATE SEQUENCE csi_status_id_seq ".toList ++ rest = "CREATE S".toList ++ rest' :=
    fun rest => ⟨"EQUENCE csi_status_id_seq ".toList ++ rest, by simp⟩
  unfold createSequencesQuery
  simp only [List.append_assoc]
  apply hhead

theorem createTablesQuery_eq : ∃ rest, createTablesQuery = "CREATE T".toList ++ rest := by
  have hhead : ∀ rest, ∃ rest', "CREATE TABLE IF NOT EXISTS csi_status(".toList ++ rest = "CREATE T".toList ++ rest' :=
    fun rest => ⟨"ABLE IF NOT EXISTS csi_status(".toList ++ rest, by simp⟩
  unfold createTablesQuery
  simp only [List.append_assoc]
  apply hhead

theorem createTablesQuery_ne (user : List Char) : createTablesQuery ≠ createSequencesQuery user := by
  obtain ⟨rest, htables⟩ := createTablesQuery_eq
  obtain ⟨rest', hsequences⟩ := createSequencesQuery_eq user
  rw [htables, hsequences]
  simp

theorem parseStatement_createSequences (user : List Char) : parseStatement (createSequencesQuery user) = none := by
  obtain ⟨rest, h⟩ := createSequencesQuery_eq user
  have hsplit : "CREATE S".toList ++ rest = "CREATE ".toList ++ 'S' :: rest := by simp
  rw [h, hsplit, parseStatement_create]

theorem parseStatement_createTables : parseStatement createTablesQuery = none := by
  obtain ⟨rest, h⟩ := createTablesQuery_eq
  have hsplit : "CREATE T".toList ++ rest = "CREATE ".toList ++ 'T' :: rest := by simp
  rw [h, hsplit, parseStatement_create]

/-- The texts that `save_csi` sends. -/
def IsSave (text : List Char) : Prop := text.head? = some 'I' ∨ text.head? = some 'S'

theorem IsSave.parseRequest {text : List Char} (h : IsSave text) (role : List Char) :
    parseRequest role text = (parseStatement text).map .statement := by
  obtain ⟨rest, htables⟩ := createTablesQuery_eq
  obtain ⟨rest', hsequences⟩ := createSequencesQuery_eq role
  have hsequence : text ≠ "CREATE S".toList ++ rest' := by
    rintro rfl
    simp [IsSave] at h
  have htable : text ≠ "CREATE T".toList ++ rest := by
    rintro rfl
    simp [IsSave] at h
  rw [AtherosCsi.parseRequest, htables, hsequences, if_neg hsequence, if_neg htable]

theorem isSave_statusQuery (st : CsiStruct) : IsSave (createCsiStatusInsertQuery st) := by
  rw [createCsiStatusInsertQuery_eq]
  simp [IsSave]

theorem isSave_selectQuery : IsSave selectQuery := Or.inr (by decide +kernel)

theorem isSave_csiDataQuery {id : ℤ} {st : CsiStruct} {m : CsiMatrix} {text : List Char}
    (h : csiDataQuery id st m = some text) : IsSave text := by
  rw [csiDataQuery_eq id st m (dimsFit_of_csiDataQuery id h)] at h
  rw [← Option.some.inj h]
  simp [IsSave]

theorem saveCsi_sends (conn : Bool) (c : Call) : (saveCsi conn c.csiStatus c.csiMatrix).Sends IsSave := by
  have hdata : ∀ id, (dataStage c id).Sends IsSave := by
    intro id
    unfold dataStage
    split
    · trivial
    · rename_i text htext
      refine Prog.sends_call.mpr ⟨isSave_csiDataQuery htext, fun res => ?_⟩
      cases res <;> trivial
  have hselect : (selectStage c).Sends IsSave := by
    rw [selectStage, Prog.sends_call]
    refine ⟨isSave_selectQuery, fun res => ?_⟩
    rcases res with _ | (_ | value) | _
    · trivial
    · trivial
    · simp only
      split
      · trivial
      · exact hdata _
    · trivial
  cases conn with
  | false => trivial
  | true =>
    rw [saveCsi_open, Prog.sends_call]
    refine ⟨isSave_statusQuery c.csiStatus, fun res => ?_⟩
    cases res with
    | commandOk => exact hselect
    | tuplesOk => trivial
    | fatalError => trivial

/-! ### A database with both tables -/

def Cluster.ofServer (role : List Char) (s : Server) : Cluster := ⟨role, .ofDb s.db, s.fates⟩

/-- Where the tables exist, a statement does to the catalog what it does to them. -/
theorem Cluster.exec_ofServer (role : List Char) (s : Server) {text : List Char} (h : IsSave text) :
    (Cluster.ofServer role s).exec text = ((s.exec text).1, .ofServer role (s.exec text).2) := by
  simp only [Cluster.exec, Server.exec, Cluster.ofServer, h.parseRequest]
  cases parseStatement text with
  | none => rfl
  | some stmt =>
    cases stmt with
    | insertStatus rows => rfl
    | insertData rows => rfl
    | selectLatest =>
      simp only [Option.map_some, Catalog.exec, Catalog.ofDb, Db.exec]
      split <;> rfl

/-- The rounds of `main` are those of the receive loop. -/
theorem run_recvRounds (h : Host) (rs : List Round) (g : DbGlobals) (conn : Bool) (s : Server) (log : List CallLog) :
    (recvRounds h g conn rs).run Server.exec s =
      (dbRecvLoop h ⟨g, conn, s, log⟩ rs).map fun t => (t.session.conn, t.session.server) := by
  induction rs generalizing g conn s log with
  | nil => rfl
  | cons r rs ih =>
    rw [recvRounds, dbRecvLoop, List.foldlM_cons, dbRecvStep]
    rcases decodeRound h g r with _ | ⟨g', _ | c⟩
    · rfl
    · exact ih g' conn s log
    · simp only [Prog.run_bind, Option.bind_eq_bind, Option.bind_some, Session.save]
      cases (saveCsi conn c.csiStatus c.csiMatrix).run Server.exec s with
      | none => rfl
      | some r' => exact ih g' r'.1.2 r'.2 _

theorem recvRounds_sends (h : Host) (rs : List Round) (g : DbGlobals) (conn : Bool) :
    (recvRounds h g conn rs).Sends IsSave := by
  induction rs generalizing g conn with
  | nil => trivial
  | cons r rs ih =>
    rw [recvRounds]
    rcases decodeRound h g r with _ | ⟨g', _ | c⟩
    · trivial
    · exact ih g' conn
    · exact (saveCsi_sends conn c).bind fun res => ih g' res.2

/-- Without a connection the rounds send nothing. -/
theorem always_recvRounds_closed {σ : Type} (exec : σ → List Char → PGresult × σ) (I : σ → Prop) (h : Host) (rs : List Round)
    {g : DbGlobals} {s : σ} : (recvRounds h g false rs).Always exec I (fun conn t => conn = false ∧ t = s) s := by
  induction rs generalizing g with
  | nil => exact ⟨rfl, rfl⟩
  | cons r rs ih =>
    rw [recvRounds]
    rcases decodeRound h g r with _ | ⟨g', _ | c⟩
    · trivial
    · exact ih
    · exact ih

/-- Rounds that begin without a connection leave what there was before them. -/
theorem always_rounds_of_closed {σ : Type} {exec : σ → List Char → PGresult × σ} {I P : σ → Prop} {p : PgProg} (h : Host)
    (g : DbGlobals) (rs : List Round) {s : σ} (hp : p.Always exec I (fun r t => r.2 = false ∧ P t) s) :
    (p.bind fun res => recvRounds h g res.2 rs).Always exec I (fun _ t => P t) s := by
  refine hp.bind fun r t ht => ?_
  have hclosed := always_recvRounds_closed exec I h rs (g := g) (s := t)
  rw [ht.1]
  refine hclosed.of_run fun conn u hrun => ?_
  obtain rfl : u = t := (hclosed.run hrun).2
  exact ht.2

/-! ### The start -/

def Slot.toTable {κ : Type} : Slot κ → Table κ
  | .table t => t
  | _ => .empty

/-- The tables, new where there is none yet. -/
def Catalog.toDb (cat : Catalog) : Db := ⟨cat.status.toTable, cat.data.toTable⟩

/-- Whether `csi_init_table` succeeds: the sequences exist or can be created, and the server does not refuse
    the second text. -/
def Cluster.StartsUp (s : Cluster) : Prop :=
  (s.fates 1).refuse = false ∧ written 1200 (createSequencesQuery s.role) = some (createSequencesQuery s.role) ∧
  match s.catalog.status, s.catalog.data with
  | .missing, .missing => (s.fates 0).refuse = false
  | .missing, _ => False
  | _, .missing => False
  | _, _ => True

instance (s : Cluster) : Decidable s.StartsUp := by
  unfold Cluster.StartsUp
  split <;> infer_instance

/-- `main` comes as far as `csi_init_table`, and has a connection. -/
def Startup.Opens (m : Startup) : Prop :=
  pgConnect m.connectdb m.params = some (1, true) ∧ ¬ (m.argc = 2 ∧ m.fopen = false) ∧ m.argc ≤ 2 ∧ 0 ≤ m.openCsiDevice

def Cluster.after (s : Cluster) (catalog : Catalog) : Cluster := ⟨s.role, catalog, fun n => s.fates (n + 1)⟩

theorem exec_createSequences (s : Cluster) :
    s.exec (createSequencesQuery s.role) = ((s.catalog.exec (s.fates 0) .createSequences).1,
      s.after (s.catalog.exec (s.fates 0) .createSequences).2) := by
  rw [Cluster.exec, parseRequest, if_pos rfl]
  rfl

theorem exec_createTables (s : Cluster) :
    s.exec createTablesQuery = ((s.catalog.exec (s.fates 0) .createTables).1,
      s.after (s.catalog.exec (s.fates 0) .createTables).2) := by
  rw [Cluster.exec, parseRequest, if_neg (createTablesQuery_ne s.role), if_pos rfl]
  rfl

theorem written_createTables : written 1200 createTablesQuery = some createTablesQuery := if_pos (by decide +kernel)

theorem written_cases (maxLen : ℕ) (text : List Char) : written maxLen text = none ∨ written maxLen text = some text := by
  unfold written
  split
  · exact .inr rfl
  · exact .inl rfl

/-- With a connection `csi_init_table` sends both texts, unless the name of the user is too long for its buffer. -/
theorem csiInitTable_open {user : List Char} (h : written 1200 (createSequencesQuery user) = some (createSequencesQuery user)) :
    csiInitTable true user = .call (createSequencesQuery user) fun _ => .call createTablesQuery fun res =>
      if res ≠ .commandOk then .ret (0, false) else .ret (1, true) := by
  rw [csiInitTable, if_neg (by decide), h]
  simp only [written_createTables]

theorem csiInitTable_crash {user : List Char} (h : written 1200 (createSequencesQuery user) = none) :
    csiInitTable true user = .crash := by
  rw [csiInitTable, if_neg (by decide), h]

/-- What the two texts leave behind: both tables and an open connection, or the rows that there were. -/
theorem run_csiInitTable (s : Cluster) (hfits : written 1200 (createSequencesQuery s.role) = some (createSequencesQuery s.role)) :
    s.StartsUp ∧ (csiInitTable true s.role).run Cluster.exec s =
        some ((1, true), .ofServer s.role ⟨s.catalog.toDb, fun n => s.fates (n + 2)⟩) ∨
      ¬ s.StartsUp ∧ ∃ t, (csiInitTable true s.role).run Cluster.exec s = some ((0, false), t) ∧
        t.catalog.status.rows = s.catalog.status.rows ∧ t.catalog.data.rows = s.catalog.data.rows := by
  obtain ⟨role, ⟨status, data⟩, fates⟩ := s
  rw [csiInitTable_open hfits, Prog.run_call, exec_createSequences, Prog.run_call]
  rcases hfirst : (fates 0).refuse <;> rcases hsecond : (fates 1).refuse <;> cases status <;> cases data <;>
    simp [Cluster.StartsUp, Catalog.exec, Cluster.after, exec_createTables, Slot.create?, hfirst, hsecond, hfits,
      Cluster.ofServer, Catalog.ofDb, Catalog.toDb, Slot.toTable, Slot.rows, Prog.run]

/-- The tables that the loop of `main` finds, and what the server has in store for its statements. -/
def Cluster.started (s : Cluster) : Server := ⟨s.catalog.toDb, fun n => s.fates (n + 2)⟩

theorem recvMain_of_opens {m : Startup} (hm : m.Opens) (h : Host) (g : DbGlobals) (rs : List Round) :
    recvMain h m g rs = (csiInitTable true m.params.user).bind fun res => recvRounds h g res.2 rs := by
  obtain ⟨hconn, hfile, hargc, hdev⟩ := hm
  simp only [recvMain, hconn]
  rw [if_neg hfile, if_neg (by omega), if_neg (by omega)]

theorem returned_of_pgConnect {connectdb : List Char → Bool} {p : PgParams} {returned : ℤ}
    (h : pgConnect connectdb p = some (returned, true)) : returned = 1 := by
  obtain ⟨_, -, hret⟩ := Option.bind_eq_some_iff.mp h
  split at hret
  · exact (Prod.mk.inj (Option.some.inj hret)).1.symm
  · cases hret

/-- A `main` without a connection sends nothing. -/
theorem always_recvMain_of_not_opens {σ : Type} (exec : σ → List Char → PGresult × σ) (I : σ → Prop) {m : Startup}
    (hm : ¬ m.Opens) (h : Host) (g : DbGlobals) (rs : List Round) {s : σ} :
    (recvMain h m g rs).Always exec I (fun _ t => t = s) s := by
  unfold recvMain
  split
  · trivial
  rename_i returned conn hconn
  split
  · trivial
  rename_i hfile
  split
  · rfl
  rename_i hargc
  split
  · rfl
  rename_i hdev
  have hclosed : conn = false := by
    cases conn with
    | false => rfl
    | true => exact absurd ⟨returned_of_pgConnect hconn ▸ hconn, hfile, Nat.not_lt.mp hargc, Int.not_lt.mp hdev⟩ hm
  rw [hclosed]
  exact always_rounds_of_closed (p := csiInitTable false m.params.user) h g rs ⟨rfl, rfl⟩

/-- The tables hold the rows that they held in `s`. -/
structure Cluster.SameRows (s t : Cluster) : Prop where
  status : t.catalog.status.rows = s.catalog.status.rows
  data : t.catalog.data.rows = s.catalog.data.rows

theorem Cluster.SameRows.refl (s : Cluster) : s.SameRows s := ⟨rfl, rfl⟩

theorem Catalog.exec_create_rows (cat : Catalog) (fate : Fate) {request : Request}
    (h : request = .createSequences ∨ request = .createTables) :
    (cat.exec fate request).2.status.rows = cat.status.rows ∧ (cat.exec fate request).2.data.rows = cat.data.rows := by
  obtain ⟨status, data⟩ := cat
  rcases h with rfl | rfl <;> rcases hrefuse : fate.refuse <;> cases status <;> cases data <;>
    simp [Catalog.exec, Slot.create?, Slot.rows, Table.empty, hrefuse]

theorem always_twoTexts {first second : List Char} {I : Cluster → Prop} {s : Cluster} (h₁ : I (s.exec first).2)
    (h₂ : I ((s.exec first).2.exec second).2) :
    (Prog.call first fun _ => .call second fun res => if res ≠ .commandOk then .ret (0, false) else .ret (1, true) : PgProg).Always
      Cluster.exec I (fun _ _ => True) s := by
  refine ⟨h₁, h₂, ?_⟩
  dsimp only
  split <;> trivial

/-- Neither text of `csi_init_table` touches a row. -/
theorem csiInitTable_keeps_rows (conn : Bool) (s : Cluster) :
    (csiInitTable conn s.role).Always Cluster.exec s.SameRows (fun _ _ => True) s := by
  have hfirst := s.catalog.exec_create_rows (s.fates 0) (.inl rfl)
  have hsecond := (s.catalog.exec (s.fates 0) .createSequences).2.exec_create_rows (s.fates 1) (.inr rfl)
  cases conn with
  | false => exact True.intro
  | true =>
    cases written_cases 1200 (createSequencesQuery s.role) with
    | inl hlong =>
      rw [csiInitTable_crash hlong]
      exact True.intro
    | inr hfits =>
      rw [csiInitTable_open hfits]
      refine always_twoTexts ?_ ?_
      · rw [exec_createSequences]
        exact ⟨hfirst.1, hfirst.2⟩
      · rw [exec_createSequences, exec_createTables]
        exact ⟨hsecond.1.trans hfirst.1, hsecond.2.trans hfirst.2⟩

theorem run_csiInitTable_of_not_startsUp {s t : Cluster} (hnot : ¬ s.StartsUp) {conn : Bool} {r : ℤ × Bool}
    (hrun : (csiInitTable conn s.role).run Cluster.exec s = some (r, t)) : r.2 = false ∧ s.SameRows t := by
  cases conn with
  | false =>
    obtain ⟨rfl, rfl⟩ := Prod.mk.inj (Option.some.inj hrun)
    exact ⟨rfl, .refl s⟩
  | true =>
    cases written_cases 1200 (createSequencesQuery s.role) with
    | inl hlong =>
      rw [csiInitTable_crash hlong] at hrun
      cases hrun
    | inr hfits =>
      rcases run_csiInitTable s hfits with ⟨hyes, -⟩ | ⟨-, u, hinit, hstatus, hdata⟩
      · exact absurd hyes hnot
      · obtain ⟨rfl, rfl⟩ := Prod.mk.inj (Option.some.inj (hinit.symm.trans hrun))
        exact ⟨rfl, hstatus, hdata⟩

theorem always_csiInitTable {s : Cluster} (hnot : ¬ s.StartsUp) (conn : Bool) :
    (csiInitTable conn s.role).Always Cluster.exec s.SameRows (fun r t => r.2 = false ∧ s.SameRows t) s :=
  (csiInitTable_keeps_rows conn s).of_run fun _ _ => run_csiInitTable_of_not_startsUp hnot

/-- A `main` that does not get to its loop with both tables there touches no row. -/
theorem recvMain_keeps_rows (h : Host) {m : Startup} (g : DbGlobals) (rs : List Round) {s : Cluster}
    (hrole : s.role = m.params.user) (hnot : ¬ (m.Opens ∧ s.StartsUp)) :
    (recvMain h m g rs).Always Cluster.exec s.SameRows (fun _ t => s.SameRows t) s := by
  by_cases hm : m.Opens
  · have hinit := always_csiInitTable fun hyes => hnot ⟨hm, hyes⟩
    rw [recvMain_of_opens hm, ← hrole]
    generalize true = conn
    exact always_rounds_of_closed h g rs (hinit conn)
  · have hclosed := always_recvMain_of_not_opens Cluster.exec s.SameRows hm h g rs (s := s)
    exact hclosed.of_run fun _ _ hrun => (hclosed.run hrun) ▸ .refl s

/-- A run of `main` either is the receive loop on the tables that earlier runs have left, new ones at first,
    or it touches no row, however long it goes on, and also where it crashes or is interrupted. -/
theorem recvMain_run (h : Host) (m : Startup) (g : DbGlobals) (rs : List Round) (s : Cluster)
    (hrole : s.role = m.params.user) :
    (m.Opens ∧ s.StartsUp → (recvMain h m g rs).run Cluster.exec s =
      (dbRecvLoop h ⟨g, true, s.started, []⟩ rs).map fun t => (t.session.conn, .ofServer s.role t.session.server)) ∧
    (¬ (m.Opens ∧ s.StartsUp) →
      (∀ n, s.SameRows ((recvMain h m g rs).after Cluster.exec n s)) ∧
      ∀ conn t, (recvMain h m g rs).run Cluster.exec s = some (conn, t) → s.SameRows t) := by
  constructor
  · rintro ⟨hm, hstarts⟩
    rcases run_csiInitTable s hstarts.2.1 with ⟨-, hinit⟩ | ⟨hnot, -⟩
    · rw [recvMain_of_opens hm, Prog.run_bind, ← hrole, hinit]
      refine ((recvRounds_sends h rs g true).run (Cluster.exec_ofServer s.role) s.started).trans ?_
      rw [run_recvRounds h rs g true s.started [], Option.map_map]
      rfl
    · exact absurd hstarts hnot
  · intro hnot
    have hkeeps := recvMain_keeps_rows h g rs hrole hnot
    exact ⟨hkeeps.after (.refl s), fun _ _ hrun => hkeeps.run hrun⟩

def newCluster : Cluster := ⟨"csi".toList, ⟨.missing, .missing⟩, fun _ => ⟨false, 0⟩⟩

def plainStartup : Startup := ⟨1, true, 3, fun _ => true, pgParams⟩

theorem plainStartup_opens : plainStartup.Opens := by
  refine ⟨?_, by decide, by decide, by decide⟩
  rw [plainStartup, pgConnect_eq _ _ (by decide)]
  rfl

/-- A first run creates the tables, and saves the packet that it receives. -/
theorem recvMain_run_new : newCluster.StartsUp ∧
    ∃ t, (recvMain Host.x86 plainStartup zeroGlobals [oneRound]).run Cluster.exec newCluster =
        some (true, .ofServer "csi".toList t) ∧
      t.db.status.rows.map Row.id = [1] ∧ t.db.data.rows.map (fun d => d.cell .statusId) = [some (.int 1)] := by
  have hstarts : newCluster.StartsUp := by decide +kernel
  have hloop : (dbRecvLoop Host.x86 ⟨zeroGlobals, true, newCluster.started, []⟩ [oneRound]).map (fun t =>
      (t.session.conn, t.session.server.db.status.rows.map Row.id, t.session.server.db.data.rows.map fun d => d.cell .statusId)) =
        some (true, [1], [some (.int 1)]) := by decide +kernel
  obtain ⟨t, ht, hrows⟩ := Option.map_eq_some_iff.mp hloop
  obtain ⟨hconn, hrows⟩ := Prod.mk.inj hrows
  obtain ⟨hstatus, hdata⟩ := Prod.mk.inj hrows
  refine ⟨hstarts, t.session.server, ?_, hstatus, hdata⟩
  rw [(recvMain_run Host.x86 plainStartup zeroGlobals [oneRound] newCluster rfl).1 ⟨plainStartup_opens, hstarts⟩, ht,
    Option.map_some, hconn]
  rfl

end AtherosCsi
