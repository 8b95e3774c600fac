import AtherosCsi.RecvToDatabase
import AtherosCsi.Lib.Interleaving

/-! The database from its creation on, and the program that fills it. `csi_init_table` sends two texts of
    several statements each. The server carries out such a text as a whole or not at all, so a second start of
    the program finds its first text refused, because the sequences exist, and its second one without effect.

    `recvMain` is `main` of `recvCSIToDatabase/main.c`, interrupted at some round. It does nothing with its
    output file, so all that is left of that file is whether it could be opened. -/

namespace AtherosCsi
open Sql

/-! ## The catalog -/

/-- A table and the sequence that numbers its rows, as far as they exist. Only the table draws from the
    sequence. -/
inductive Slot (κ : Type) where
  | missing
  | sequence
  | table (t : Table κ)

namespace Slot
variable {κ : Type}

def rows : Slot κ → List (Row κ)
  | .table t => t.rows
  | _ => []

/-- `CREATE TABLE IF NOT EXISTS`, which fails where the default of the key names a sequence that is missing. -/
def create? : Slot κ → Option (Slot κ)
  | .missing => none
  | .sequence => some (.table .empty)
  | .table t => some (.table t)

end Slot

structure Catalog where
  status : Slot StatusColumn
  data : Slot DataColumn

def Catalog.ofDb (db : Db) : Catalog := ⟨.table db.status, .table db.data⟩

def createSequencesQuery (user : List Char) : List Char :=
  "CREATE SEQUENCE csi_status_id_seq ".toList ++ "START WITH 1 ".toList ++ "INCREMENT BY 1 ".toList ++
  "NO MINVALUE ".toList ++ "NO MAXVALUE ".toList ++ "CACHE 1; ".toList ++
  "ALTER TABLE public.csi_status_id_seq OWNER TO ".toList ++ cString user ++ "; ".toList ++
  "CREATE SEQUENCE csi_data_id_seq ".toList ++ "START WITH 1 ".toList ++ "INCREMENT BY 1 ".toList ++
  "NO MINVALUE ".toList ++ "NO MAXVALUE ".toList ++ "CACHE 1; ".toList ++
  "ALTER TABLE public.csi_data_id_seq OWNER TO ".toList ++ cString user ++ ";".toList

def createTablesQuery : List Char :=
  "CREATE TABLE IF NOT EXISTS csi_status(".toList ++
  "id INTEGER PRIMARY KEY DEFAULT nextval('csi_status_id_seq'::regclass),".toList ++ "timestamp_milli BIGINT,".toList ++
  "channel INTEGER,".toList ++ "channel_bw REAL,".toList ++ "rate INTEGER,".toList ++ "num_receives INTEGER,".toList ++
  "num_transmitters INTEGER,".toList ++ "num_subcarriers INTEGER,".toList ++ "noise INTEGER,".toList ++
  "phy_err INTEGER,".toList ++ "full_rssi INTEGER,".toList ++ "rssi_0 INTEGER,".toList ++ "rssi_1 INTEGER,".toList ++
  "rssi_2 INTEGER,".toList ++ "payload_len INTEGER,".toList ++ "csi_len INTEGER,".toList ++ "buf_len INTEGER".toList ++
  ");".toList ++
  "CREATE TABLE IF NOT EXISTS csi_data(".toList ++
  "id INTEGER PRIMARY KEY DEFAULT nextval('csi_data_id_seq'::regclass),".toList ++ "timestamp_milli BIGINT,".toList ++
  "status_id INTEGER,".toList ++ "antenna INTEGER,".toList ++ "subcarrier INTEGER,".toList ++ "rc_1_real INTEGER,".toList ++
  "rc_1_imag INTEGER,".toList ++ "rc_1_rssi INTEGER,".toList ++ "rc_2_real INTEGER,".toList ++
  "rc_2_imag INTEGER,".toList ++ "rc_2_rssi INTEGER,".toList ++ "rc_3_real INTEGER,".toList ++
  "rc_3_imag INTEGER,".toList ++ "rc_3_rssi INTEGER".toList ++ ");".toList

/-- What a text asks the server to do. -/
inductive Request where
  | createSequences
  | createTables
  | statement (s : Statement)
  deriving DecidableEq, Repr

/-- The two texts of `csi_init_table` are told by what they are, letter for letter; only the other statements are
    parsed. `role` is the user that the sequences are given to, whom the server must know. -/
def parseRequest (role text : List Char) : Option Request :=
  if text = createSequencesQuery role then some .createSequences
  else if text = createTablesQuery then some .createTables
  else (parseStatement text).map .statement

def Catalog.exec (cat : Catalog) (fate : Fate) : Request → PGresult × Catalog
  | .createSequences =>
    match fate.refuse, cat.status, cat.data with
    | false, .missing, .missing => (.commandOk, ⟨.sequence, .sequence⟩)
    | _, _, _ => (.fatalError, cat)
  | .createTables =>
    match fate.refuse, cat.status.create?, cat.data.create? with
    | false, some status, some data => (.commandOk, ⟨status, data⟩)
    | _, _, _ => (.fatalError, cat)
  | .statement (.insertStatus rows) =>
    match cat.status with
    | .table t =>
      let (res, t) := insertInto statusColumns fate t rows
      (res, { cat with status := .table t })
    | _ => (.fatalError, cat)
  | .statement (.insertData rows) =>
    match cat.data with
    | .table t =>
      let (res, t) := insertInto dataColumns fate t rows
      (res, { cat with data := .table t })
    | _ => (.fatalError, cat)
  | .statement .selectLatest =>
    match cat.status with
    | .table t => if fate.refuse then (.fatalError, cat) else (.tuplesOk (t.latest.map decimal), cat)
    | _ => (.fatalError, cat)

structure Cluster where
  role : List Char
  catalog : Catalog
  fates : ℕ → Fate

/-- `PQexec`, on a database that may lack tables. -/
def Cluster.exec (s : Cluster) (text : List Char) : PGresult × Cluster :=
  let (res, catalog) := match parseRequest s.role text with
    | none => (.fatalError, s.catalog)
    | some request => s.catalog.exec (s.fates 0) request
  (res, { s with catalog, fates := fun n => s.fates (n + 1) })

/-! ## The program -/

def csiInitTable (conn : Bool) (user : List Char) : PgProg :=
  if conn = false then .ret (0, conn)
  else
    match written 1200 (createSequencesQuery user) with
    | none => .crash
    | some initTablesQuery => .call initTablesQuery fun _ =>
      match written 1200 createTablesQuery with
      | none => .crash
      | some initTablesQuery => .call initTablesQuery fun res =>
        if res ≠ .commandOk then .ret (0, false) else .ret (1, conn)

/-- The rounds of the loop, each of them as in `dbRecvStep`. What is left in the end is `*conn`. -/
def recvRounds (h : Host) (g : DbGlobals) (conn : Bool) : List Round → Prog (List Char) PGresult Bool
  | [] => .ret conn
  | r :: rs =>
    match decodeRound h g r with
    | none => .crash
    | some (g, none) => recvRounds h g conn rs
    | some (g, some c) => (saveCsi conn c.csiStatus c.csiMatrix).bind fun res => recvRounds h g res.2 rs

/-- What `main` finds when it starts: its arguments, whether the output file can be opened, the descriptor of
    the device, and what becomes of `PQconnectdb`. -/
structure Startup where
  argc : ℕ
  fopen : Bool
  openCsiDevice : ℤ
  connectdb : List Char → Bool
  params : PgParams

def recvMain (h : Host) (m : Startup) (g : DbGlobals) (rs : List Round) : Prog (List Char) PGresult Bool :=
  match pgConnect m.connectdb m.params with
  | none => .crash
  | some (_, conn) =>
    -- `fclose` of the null pointer
    if m.argc = 2 ∧ m.fopen = false then .crash
    else if m.argc > 2 then .ret conn
    else if m.openCsiDevice < 0 then .ret conn
    else (csiInitTable conn m.params.user).bind fun res => recvRounds h g res.2 rs

end AtherosCsi
