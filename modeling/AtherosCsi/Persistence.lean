import AtherosCsi.CLibrary
import AtherosCsi.CsiFun
import AtherosCsi.Database
import AtherosCsi.Lib.Process

/-! `recvCSIToDatabase/csi_persistence.c`: how a packet is saved. A call of `save_csi` is a program that sends
    up to three statements to the server, and closes the connection for good when one of them fails.

    `sprintf` with its own destination as the first `%s` appends to it. The program that saves a packet is
    written for a buffer without bound; `csiDataQueryIn` builds the same text in the buffer that the code
    allocates. What the functions print is left out. -/

namespace AtherosCsi
open Loop Sql

/-! ## Text -/

def printF (x : ℕ) : List Char := decimal x ++ ".000000".toList

def createCsiStatusInsertQuery (st : CsiStruct) : List Char :=
  "INSERT INTO csi_status VALUES(".toList ++
  "DEFAULT,'".toList ++ decimal st.tstamp.toNat ++ "','".toList ++ decimal st.channel.toNat ++ "','".toList ++
  printF (if st.chanBW = 0 then 20 else 40) ++ "','".toList ++ decimal st.rate.toNat ++ "','".toList ++
  decimal st.nr.toNat ++ "','".toList ++ decimal st.nc.toNat ++ "','".toList ++ decimal st.numTones.toNat ++
  "','".toList ++ decimal st.noise.toNat ++ "','".toList ++ decimal st.phyerr.toNat ++ "','".toList ++
  decimal st.rssi.toNat ++ "',".toList ++
  "'".toList ++ decimal st.rssi0.toNat ++ "','".toList ++ decimal st.rssi1.toNat ++ "','".toList ++
  decimal st.rssi2.toNat ++ "','".toList ++ decimal st.payloadLen.toNat ++ "','".toList ++
  decimal st.csiLen.toNat ++ "','".toList ++ decimal st.bufLen.toNat ++ "'".toList ++
  ")".toList

def CsiMatrix.get? (m : CsiMatrix) (r c k : ℕ) : Option Complex :=
  if h : r < 3 ∧ c < 3 ∧ k < 114 then some (m.cell ⟨r, h.1⟩ ⟨c, h.2.1⟩ ⟨k, h.2.2⟩) else none

/-- The body of the innermost loop of `save_csi_matrix`. -/
def appendCell (m : CsiMatrix) (antenna subcarrier nc : ℕ) (text : List Char) : Option (List Char) := do
  let z ← m.get? antenna nc subcarrier
  return text ++ (",'".toList ++ decimal z.real.toInt ++ "','".toList ++ decimal z.imag.toInt ++ "','".toList ++
    decimal 0 ++ "'".toList)

/-- The body of the loop over the antennas: one row of `csi_data`. -/
def appendRow (csiStatusId : ℤ) (st : CsiStruct) (m : CsiMatrix) (subcarrier antenna : ℕ) (text : List Char) :
    Option (List Char) := do
  let text := text ++ (" (DEFAULT,'".toList ++ decimal st.tstamp.toNat ++ "','".toList ++ decimal csiStatusId ++
    "','".toList ++ decimal (antenna + 1) ++ "','".toList ++ decimal (subcarrier + 1) ++ "'".toList)
  let text ← forUp 32 0 st.nc.toNat (fun nc => appendCell m antenna subcarrier nc.toNat) text
  return text ++
    if subcarrier + 1 = st.numTones.toNat ∧ antenna + 1 = st.nr.toNat then ");".toList else "),".toList

/-- `insert_query` of `save_csi_matrix`. -/
def csiDataQuery (csiStatusId : ℤ) (st : CsiStruct) (m : CsiMatrix) : Option (List Char) :=
  forUp 32 0 st.numTones.toNat (fun subcarrier => forUp 32 0 st.nr.toNat fun antenna =>
    appendRow csiStatusId st m subcarrier.toNat antenna.toNat) "INSERT INTO csi_data VALUES".toList

/-! `insert_query` again, in a buffer of `max_len` bytes. -/

def appendRowIn (maxLen : ℕ) (csiStatusId : ℤ) (st : CsiStruct) (m : CsiMatrix) (subcarrier antenna : ℕ)
    (text : List Char) : Option (List Char) := do
  let text ← written maxLen (text ++ (" (DEFAULT,'".toList ++ decimal st.tstamp.toNat ++ "','".toList ++
    decimal csiStatusId ++ "','".toList ++ decimal (antenna + 1) ++ "','".toList ++ decimal (subcarrier + 1) ++
    "'".toList))
  let text ← forUp 32 0 st.nc.toNat (fun nc text => do
    written maxLen (← appendCell m antenna subcarrier nc.toNat text)) text
  written maxLen (text ++
    if subcarrier + 1 = st.numTones.toNat ∧ antenna + 1 = st.nr.toNat then ");".toList else "),".toList)

def csiDataQueryIn (csiStatusId : ℤ) (st : CsiStruct) (m : CsiMatrix) : Option (List Char) := do
  let maxLen := 27 + (st.numTones.toNat * st.nr.toNat) * 122
  let text ← written maxLen "INSERT INTO csi_data VALUES".toList
  forUp 32 0 st.numTones.toNat (fun subcarrier => forUp 32 0 st.nr.toNat fun antenna =>
    appendRowIn maxLen csiStatusId st m subcarrier.toNat antenna.toNat) text

/-! ## Saving a packet -/

/-- A program that sends texts with `PQexec`, gets results, and returns an `int` and whether `*conn` is still
    open. -/
abbrev PgProg : Type := Prog (List Char) PGresult (ℤ × Bool)

def saveCsiStatus (conn : Bool) (st : CsiStruct) : PgProg :=
  if conn = false then .ret (0, conn)
  else .call (createCsiStatusInsertQuery st) fun res =>
    if res ≠ .commandOk then .ret (0, false)
    else .call selectQuery fun res =>
      match res with
      | .tuplesOk (some value) => .ret (atoi value, conn)
      -- `PQgetvalue` gives a null pointer when there is no row.
      | .tuplesOk none => .crash
      | _ => .ret (0, false)

def saveCsiMatrix (conn : Bool) (csiStatusId : ℤ) (st : CsiStruct) (m : CsiMatrix) : PgProg :=
  if conn = false then .ret (0, conn)
  else
    match csiDataQuery csiStatusId st m with
    | none => .crash
    | some insertQuery => .call insertQuery fun res =>
      if res ≠ .commandOk then .ret (0, false) else .ret (1, conn)

def saveCsi (conn : Bool) (st : CsiStruct) (m : CsiMatrix) : PgProg :=
  (saveCsiStatus conn st).bind fun r =>
    if r.1 = 0 then .ret (0, r.2)
    else (saveCsiMatrix r.2 r.1 st m).bind fun r => if r.1 = 0 then .ret (0, r.2) else .ret (1, r.2)

/-! ## Saving packet after packet -/

structure Call where
  csiStatus : CsiStruct
  csiMatrix : CsiMatrix

/-- A call that has returned: its result, and the rows that the tables have gained since it began. -/
structure CallLog where
  call : Call
  returned : ℤ
  statusAdded : List StatusRow
  dataAdded : List DataRow

structure Session where
  conn : Bool
  server : Server
  log : List CallLog

def Session.save (s : Session) (c : Call) : Option Session := do
  let ((returned, conn), server) ← (saveCsi s.conn c.csiStatus c.csiMatrix).run Server.exec s.server
  return { conn, server, log := s.log ++ [{
    call := c, returned
    statusAdded := server.db.status.rows.drop s.server.db.status.rows.length
    dataAdded := server.db.data.rows.drop s.server.db.data.rows.length }] }

def Session.saveAll (s : Session) (cs : List Call) : Option Session := cs.foldlM Session.save s

/-! ## The connection -/

/-- The loop of `long_num_digits`. -/
def digitStep (s : Int64 × Int32) : Option (Int64 × Int32) :=
  if s.1 > 0 then some (s.1 / 10, s.2 + 1) else none

theorem number_pos_iff {number : Int64} : number > 0 ↔ 0 < number.toInt := Int64.lt_iff_toInt_lt (x := 0)

theorem toInt_div_ten {number : Int64} (h : 0 < number.toInt) : (number / 10).toInt = number.toInt / 10 :=
  (Int64.toInt_div_of_ne_right number 10 (by decide)).trans (Int.tdiv_eq_ediv_of_nonneg h.le)

theorem digitStep_decreases (s t : Int64 × Int32) (h : digitStep s = some t) : t.1.toInt.toNat < s.1.toInt.toNat := by
  unfold digitStep at h
  split at h
  · rename_i hpos
    have hpos := number_pos_iff.mp hpos
    rw [← Option.some.inj h, toInt_div_ten hpos]
    omega
  · cases h

def longNumDigits (number : Int64) : Int32 :=
  let (number, digits) : Int64 × Int32 := if number < 0 then (number * -1, 1) else (number, 0)
  if number = 0 then 1 else (iterate digitStep (fun s => s.1.toInt.toNat) digitStep_decreases (number, digits)).2

def numDigits (number : Int32) : Int32 := longNumDigits number.toInt64

/-- `PG_USER`, `PG_PASS`, `PG_DBNAME`, `PG_HOST` and `PG_PORT`. -/
structure PgParams where
  user : List Char
  pass : List Char
  dbname : List Char
  host : List Char
  port : Int32

/-- The values of `csi_persistence.h`. -/
def pgParams : PgParams := ⟨"csi".toList, "csi".toList, "csi".toList, "127.0.0.1".toList, 5432⟩

def PgParams.strLen (p : PgParams) : Int32 :=
  let portLen := numDigits p.port
  (40 + portLen.toInt64.toUInt64 + strlen p.user + strlen p.pass + strlen p.dbname + strlen p.host).toUInt32.toInt32

def PgParams.connectionString (p : PgParams) : List Char :=
  "user=".toList ++ cString p.user ++ " password=".toList ++ cString p.pass ++ " dbname=".toList ++ cString p.dbname ++
  " hostaddr=".toList ++ cString p.host ++ " port=".toList ++ decimal p.port.toInt

/-- `pg_connect`: what it returns, and whether `*conn` is open. What becomes of the text is up to
    `PQconnectdb`, here a parameter that tells whether the connection is good. -/
def pgConnect (connectdb : List Char → Bool) (p : PgParams) : Option (ℤ × Bool) := do
  let connectionString ← written p.strLen.toInt.toNat p.connectionString
  return if connectdb connectionString then (1, true) else (0, false)

end AtherosCsi
