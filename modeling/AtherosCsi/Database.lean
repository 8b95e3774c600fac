import AtherosCsi.Lib.SqlTable

/-! The PostgreSQL server behind `recvCSIToDatabase`, as far as the program can tell: the two tables that
    `csi_init_table` declares, and what a statement does to them. The server is not part of the
    repository. Each statement is atomic; one that the server does not understand, or that it refuses for
    reasons of its own, fails and changes no row. -/

namespace AtherosCsi
open Sql

/-! ## Tables -/

inductive StatusColumn where
  | timestampMilli | channel | channelBw | rate | numReceives | numTransmitters | numSubcarriers | noise | phyErr
  | fullRssi | rssi0 | rssi1 | rssi2 | payloadLen | csiLen | bufLen
  deriving DecidableEq, Repr

inductive DataColumn where
  | timestampMilli | statusId | antenna | subcarrier
  | rcReal (i : Fin 3) | rcImag (i : Fin 3) | rcRssi (i : Fin 3)
  deriving DecidableEq, Repr

/-- The columns in the order of the declaration, with their types. -/
def statusColumns : List (StatusColumn × ColType) :=
  [(.timestampMilli, .bigint), (.channel, .integer), (.channelBw, .real), (.rate, .integer), (.numReceives, .integer),
    (.numTransmitters, .integer), (.numSubcarriers, .integer), (.noise, .integer), (.phyErr, .integer),
    (.fullRssi, .integer), (.rssi0, .integer), (.rssi1, .integer), (.rssi2, .integer), (.payloadLen, .integer),
    (.csiLen, .integer), (.bufLen, .integer)]

def dataColumns : List (DataColumn × ColType) :=
  [(.timestampMilli, .bigint), (.statusId, .integer), (.antenna, .integer), (.subcarrier, .integer),
    (.rcReal 0, .integer), (.rcImag 0, .integer), (.rcRssi 0, .integer),
    (.rcReal 1, .integer), (.rcImag 1, .integer), (.rcRssi 1, .integer),
    (.rcReal 2, .integer), (.rcImag 2, .integer), (.rcRssi 2, .integer)]

abbrev StatusRow : Type := Row StatusColumn

abbrev DataRow : Type := Row DataColumn

structure Db where
  status : Table StatusColumn
  data : Table DataColumn

def Db.empty : Db := ⟨.empty, .empty⟩

/-! ## Statements -/

inductive Statement where
  | insertStatus (rows : List (List Value))
  | insertData (rows : List (List Value))
  | selectLatest
  deriving DecidableEq, Repr

def insertHead (table : String) : List Token :=
  [.word "INSERT".toList, .word "INTO".toList, .word table.toList, .word "VALUES".toList]

def selectQuery : List Char := "SELECT id FROM csi_status ORDER BY id DESC LIMIT 1".toList

/-- The statement that a text stands for, or `none` for a text that the server rejects as it stands. -/
def parseStatement (text : List Char) : Option Statement := do
  let ts ← lex text
  if ts.take 4 = insertHead "csi_status" then (parseRows .row [] [] (ts.drop 4)).map .insertStatus
  else if ts.take 4 = insertHead "csi_data" then (parseRows .row [] [] (ts.drop 4)).map .insertData
  else if some ts = lex selectQuery then some .selectLatest
  else none

/-! ## Execution -/

/-- What befalls a statement: whether the server refuses it, and how many numbers its sequence loses. -/
structure Fate where
  refuse : Bool
  skip : ℕ
  deriving DecidableEq, Repr

/-- The result of a statement as `PQresultStatus` tells it. A query for one value comes with that value's
    text, if there is a row. -/
inductive PGresult where
  | commandOk
  | tuplesOk (value : Option (List Char))
  | fatalError
  deriving DecidableEq, Repr

/-- Inserts into a table. The sequence does not return the numbers of a statement that fails. -/
def insertInto {κ : Type} [DecidableEq κ] (cols : List (κ × ColType)) (fate : Fate) (t : Table κ) (rows : List (List Value)) :
    PGresult × Table κ :=
  if fate.refuse then (.fatalError, t.skip fate.skip)
  else
    match (t.skip fate.skip).insert? cols rows with
    | none => (.fatalError, t.skip fate.skip)
    | some t' => (.commandOk, t')

def Db.exec (db : Db) (fate : Fate) : Statement → PGresult × Db
  | .insertStatus rows =>
    let (res, status) := insertInto statusColumns fate db.status rows
    (res, { db with status })
  | .insertData rows =>
    let (res, data) := insertInto dataColumns fate db.data rows
    (res, { db with data })
  | .selectLatest => if fate.refuse then (.fatalError, db) else (.tuplesOk (db.status.latest.map decimal), db)

structure Server where
  db : Db
  fates : ℕ → Fate

/-- `PQexec`. -/
def Server.exec (s : Server) (text : List Char) : PGresult × Server :=
  let (res, db) := match parseStatement text with
    | none => (.fatalError, s.db)
    | some stmt => s.db.exec (s.fates 0) stmt
  (res, ⟨db, fun n => s.fates (n + 1)⟩)

end AtherosCsi
