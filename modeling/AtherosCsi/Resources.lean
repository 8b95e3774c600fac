import AtherosCsi.Catalog

/-! What the database receiver takes from the C library and from libpq, and gives back. These are the functions
    of `Persistence` and `Catalog` once more, with the pointers that the code passes around and with every call that
    goes through one; a null pointer is `none`. The library keeps a ledger of what the program has. It notes when a
    pointer is to nothing that the program has, or no longer has, when a text is read from memory that holds none, and
    when one is written behind the end of its memory. A program that goes through a null pointer crashes.

    Where a function reads `csi_status` again and again, it does so here when it begins. The numbers that it reads are
    parameters, as are the matrix and the buffers of the packet, which are arrays of the program. -/

namespace AtherosCsi
open Sql

/-- Where `PQexec` finds its text: in a block, or in the program. -/
inductive Query where
  | block (p : ℕ)
  | literal (text : List Char)

inductive LibCall where
  | malloc (size : ℕ)
  | free (p : ℕ)
  /-- An access to a structure of `size` bytes. -/
  | access (p size : ℕ)
  | sprintf (p : ℕ) (text : List Char)
  /-- `strcat`, and `sprintf` whose first `%s` is its destination. -/
  | append (p : ℕ) (text : List Char)
  /-- `sprintf` into a local array of `size` bytes. -/
  | sprintfLocal (size : ℕ) (text : List Char)
  | pqConnectdb (connInfo : List Char)
  | pqStatus (conn : Option ℕ)
  | pqErrorMessage (conn : Option ℕ)
  | pqExec (conn : ℕ) (query : Query)
  | pqResultStatus (res : Option ℕ)
  /-- The text of the first row and column, which belongs to the result. -/
  | pqGetvalue (res : Option ℕ)
  | atoi (value : ℕ)
  | pqClear (res : Option ℕ)
  | pqFinish (conn : ℕ)

/-- What `PQresultStatus` tells. -/
inductive ExecStatus where
  | commandOk
  | tuplesOk
  | fatalError
  deriving DecidableEq, Repr

/-- What a call returns: a pointer, whether a connection is good, the status of a result, or a number. -/
structure Reply where
  pointer : Option ℕ := none
  good : Bool := false
  status : ExecStatus := .fatalError
  number : ℤ := 0

abbrev LibProg (α : Type) : Type := Prog LibCall Reply α

/-! ## The program -/

/-- `sizeof(csi_struct)` -/
def sizeofCsiStruct : ℕ := 32

namespace Owning

def pgClose (conn : Option ℕ) : LibProg (Option ℕ) :=
  match conn with
  | none => .ret none
  | some c => .call (.pqFinish c) fun _ => .ret none

def pgConnect (p : PgParams) : LibProg (ℤ × Option ℕ) :=
  .call (.sprintfLocal p.strLen.toInt.toNat p.connectionString) fun _ =>
  .call (.pqConnectdb p.connectionString) fun conn =>
  .call (.pqStatus conn.pointer) fun status =>
    if status.good = false then
      .call (.pqErrorMessage conn.pointer) fun _ => (pgClose conn.pointer).bind fun conn => .ret (0, conn)
    else .ret (1, conn.pointer)

/-- `printf(.., PQerrorMessage(*conn)); PQclear(res); pg_close(conn); return 0;` -/
def giveUp (res conn : Option ℕ) : LibProg (ℤ × Option ℕ) :=
  .call (.pqErrorMessage conn) fun _ => .call (.pqClear res) fun _ => (pgClose conn).bind fun conn => .ret (0, conn)

/-- `malloc`, where the program writes to the memory at once. -/
def allocate {α : Type} (size : ℕ) (k : ℕ → LibProg α) : LibProg α :=
  .call (.malloc size) fun block =>
    match block.pointer with
    | none => .crash
    | some p => k p

def csiInitTable (conn : Option ℕ) (user : List Char) : LibProg (ℤ × Option ℕ) :=
  match conn with
  | none => .ret (0, conn)
  | some c => allocate 1200 fun initTablesQuery =>
    .call (.sprintf initTablesQuery (createSequencesQuery user)) fun _ =>
    .call (.pqExec c (.block initTablesQuery)) fun res => .call (.pqClear res.pointer) fun _ =>
    .call (.sprintf initTablesQuery createTablesQuery) fun _ =>
    .call (.pqExec c (.block initTablesQuery)) fun res => .call (.pqResultStatus res.pointer) fun answer =>
      if answer.status ≠ .commandOk then giveUp res.pointer conn
      else .call (.free initTablesQuery) fun _ => .call (.pqClear res.pointer) fun _ => .ret (1, conn)

/-- `snprintf`, which returns the length of the whole text. -/
def snprintf (dest : Option ℕ) (maxLen : ℕ) (text : List Char) : LibProg ℕ :=
  if maxLen = 0 then .ret text.length
  else
    match dest with
    | none => .crash
    | some p => .call (.sprintf p (text.take (maxLen - 1))) fun _ => .ret text.length

def createCsiStatusInsertQuery (insertQuery : Option ℕ) (maxLen csiStatus : ℕ) (st : CsiStruct) : LibProg ℕ :=
  .call (.access csiStatus sizeofCsiStruct) fun _ => snprintf insertQuery maxLen (AtherosCsi.createCsiStatusInsertQuery st)

def saveCsiStatus (conn : Option ℕ) (csiStatus : ℕ) (st : CsiStruct) : LibProg (ℤ × Option ℕ) :=
  match conn with
  | none => .ret (0, conn)
  | some c => (createCsiStatusInsertQuery none 0 csiStatus st).bind fun n => allocate (1 + n) fun insertQuery =>
    (createCsiStatusInsertQuery (some insertQuery) (1 + n) csiStatus st).bind fun _ =>
    .call (.pqExec c (.block insertQuery)) fun res => .call (.pqResultStatus res.pointer) fun answer =>
      if answer.status ≠ .commandOk then giveUp res.pointer conn
      else .call (.free insertQuery) fun _ => .call (.pqClear res.pointer) fun _ =>
        .call (.pqExec c (.literal selectQuery)) fun res => .call (.pqResultStatus res.pointer) fun answer =>
          if answer.status ≠ .tuplesOk then giveUp res.pointer conn
          else .call (.pqGetvalue res.pointer) fun value =>
            match value.pointer with
            | none => .crash
            | some value => .call (.atoi value) fun id => .call (.pqClear res.pointer) fun _ => .ret (id.number, conn)

/-- The body of the innermost loop of `save_csi_matrix`. -/
def appendCell (insertQuery : ℕ) (m : CsiMatrix) (antenna subcarrier nc : ℕ) : LibProg Unit :=
  match m.get? antenna nc subcarrier with
  | none => .crash
  | some z => .call (.append insertQuery (",'".toList ++ decimal z.real.toInt ++ "','".toList ++ decimal z.imag.toInt ++
      "','".toList ++ decimal 0 ++ "'".toList)) fun _ => .ret ()

/-- The body of the loop over the antennas. -/
def appendRow (insertQuery : ℕ) (csiStatusId : ℤ) (st : CsiStruct) (m : CsiMatrix) (subcarrier antenna : ℕ) : LibProg Unit :=
  .call (.append insertQuery (" (DEFAULT,'".toList ++ decimal st.tstamp.toNat ++ "','".toList ++ decimal csiStatusId ++
      "','".toList ++ decimal (antenna + 1) ++ "','".toList ++ decimal (subcarrier + 1) ++ "'".toList)) fun _ =>
    (Prog.forEach (appendCell insertQuery m antenna subcarrier) (List.range st.nc.toNat)).bind fun _ =>
    .call (.append insertQuery (if subcarrier + 1 = st.numTones.toNat ∧ antenna + 1 = st.nr.toNat then ");".toList
      else "),".toList)) fun _ => .ret ()

def saveCsiMatrix (conn : Option ℕ) (csiStatusId : ℤ) (csiStatus : ℕ) (st : CsiStruct) (m : CsiMatrix) :
    LibProg (ℤ × Option ℕ) :=
  match conn with
  | none => .ret (0, conn)
  | some c => .call (.access csiStatus sizeofCsiStruct) fun _ =>
    allocate (27 + (st.numTones.toNat * st.nr.toNat) * 122) fun insertQuery =>
    .call (.sprintf insertQuery "INSERT INTO csi_data VALUES".toList) fun _ =>
    (Prog.forEach (fun subcarrier => Prog.forEach (appendRow insertQuery csiStatusId st m subcarrier) (List.range st.nr.toNat))
      (List.range st.numTones.toNat)).bind fun _ =>
    .call (.pqExec c (.block insertQuery)) fun res => .call (.pqResultStatus res.pointer) fun answer =>
      if answer.status ≠ .commandOk then giveUp res.pointer conn
      else .call (.free insertQuery) fun _ => .call (.pqClear res.pointer) fun _ => .ret (1, conn)

def saveCsi (conn : Option ℕ) (csiStatus : ℕ) (st : CsiStruct) (m : CsiMatrix) : LibProg (ℤ × Option ℕ) :=
  (saveCsiStatus conn csiStatus st).bind fun r =>
    if r.1 = 0 then .ret (0, r.2)
    else (saveCsiMatrix r.2 r.1 csiStatus st m).bind fun r => if r.1 = 0 then .ret (0, r.2) else .ret (1, r.2)

/-- The rounds of the loop. `record_status` writes through `csi_status`, which nothing checks. -/
def recvRounds (h : Host) (csiStatus : Option ℕ) (g : DbGlobals) (conn : Option ℕ) : List Round → LibProg (Option ℕ)
  | [] => .ret conn
  | r :: rs =>
    match decodeRound h g r with
    | none => .crash
    | some (g, none) => recvRounds h csiStatus g conn rs
    | some (g, some c) =>
      match csiStatus with
      | none => .crash
      | some p => .call (.access p sizeofCsiStruct) fun _ =>
        (saveCsi conn p c.csiStatus c.csiMatrix).bind fun res => recvRounds h (some p) g res.2 rs

def recvMain (h : Host) (m : Startup) (g : DbGlobals) (rs : List Round) : LibProg (Option ℕ) :=
  (pgConnect m.params).bind fun r =>
    .call (.malloc sizeofCsiStruct) fun csiStatus =>
      if m.argc = 2 ∧ m.fopen = false then .crash
      else if m.argc > 2 then .ret r.2
      else if m.openCsiDevice < 0 then .ret r.2
      else (csiInitTable r.2 m.params.user).bind fun res => recvRounds h csiStatus.pointer g res.2 rs

end Owning

/-! ## The library -/

/-- A block of memory, and the text in it, if one has been written there. -/
structure Block where
  size : ℕ
  text : Option (List Char)
  deriving DecidableEq, Repr

/-- What the program has taken and not given back, and whether it has ever used what it had not. -/
structure Ledger where
  next : ℕ
  blocks : List (ℕ × Block)
  results : List (ℕ × PGresult)
  conns : List (ℕ × Bool)
  misused : Bool
  deriving DecidableEq, Repr

namespace Ledger

def empty : Ledger := ⟨0, [], [], [], false⟩

def text? (l : Ledger) (p : ℕ) : Option (List Char) := (l.blocks.lookup p).bind Block.text

/-- A text and its NUL go into a block, if they fit. -/
def write? (l : Ledger) (p : ℕ) (text : List Char) : Option Ledger := do
  let block ← l.blocks.lookup p
  if text.length + 1 ≤ block.size then
    some { l with blocks := (p, { block with text := some text }) :: l.blocks.eraseP (·.1 = p) }
  else none

def query? (l : Ledger) : Query → Option (List Char)
  | .block p => l.text? p
  | .literal text => some text

end Ledger

def PGresult.status : PGresult → ExecStatus
  | .commandOk => .commandOk
  | .tuplesOk _ => .tuplesOk
  | .fatalError => .fatalError

def PGresult.value? : PGresult → Option (List Char)
  | .tuplesOk value => value
  | _ => none

/-- What lies behind the library: memory that may run out, and the server. A null pointer is `none`. -/
structure Env (μ σ : Type) where
  malloc : μ → ℕ → Bool × μ
  connectdb : List Char → Option Bool
  exec : σ → List Char → Option PGresult × σ

namespace Env
variable {μ σ : Type} (env : Env μ σ)

/-- The end of a call that neither the memory nor the server has to do with. A call that must not be made is noted. -/
def done (s : Ledger × μ × σ) : Option (Reply × Ledger) → Reply × (Ledger × μ × σ)
  | some (reply, l) => (reply, l, s.2)
  | none => ({}, { s.1 with misused := true }, s.2)

def call (s : Ledger × μ × σ) : LibCall → Reply × (Ledger × μ × σ)
  | .malloc size =>
    match env.malloc s.2.1 size with
    | (true, t) =>
      ({ pointer := some s.1.next },
        { s.1 with next := s.1.next + 1, blocks := (s.1.next, ⟨size, none⟩) :: s.1.blocks }, t, s.2.2)
    | (false, t) => ({}, s.1, t, s.2.2)
  | .free p => done s ((s.1.blocks.lookup p).map fun _ => ({}, { s.1 with blocks := s.1.blocks.eraseP (·.1 = p) }))
  | .access p size => done s (if s.1.blocks.any fun b => b.1 = p ∧ size ≤ b.2.size then some ({}, s.1) else none)
  | .sprintf p text => done s ((s.1.write? p text).map fun l => ({}, l))
  | .append p text => done s do
    let old ← s.1.text? p
    return ({}, ← s.1.write? p (old ++ text))
  | .sprintfLocal size text => done s (if text.length + 1 ≤ size then some ({}, s.1) else none)
  | .pqConnectdb connInfo =>
    match env.connectdb connInfo with
    | some good =>
      ({ pointer := some s.1.next }, { s.1 with next := s.1.next + 1, conns := (s.1.next, good) :: s.1.conns }, s.2)
    | none => ({}, s)
  | .pqStatus none => ({}, s)
  | .pqStatus (some conn) => done s ((s.1.conns.lookup conn).map fun good => ({ good }, s.1))
  | .pqErrorMessage none => ({}, s)
  | .pqErrorMessage (some conn) => done s ((s.1.conns.lookup conn).map fun _ => ({}, s.1))
  | .pqExec conn query =>
    match s.1.conns.lookup conn, s.1.query? query with
    | some _, some text =>
      match env.exec s.2.2 text with
      | (some result, t) =>
        ({ pointer := some s.1.next },
          { s.1 with next := s.1.next + 1, results := (s.1.next, result) :: s.1.results }, s.2.1, t)
      | (none, t) => ({}, s.1, s.2.1, t)
    | _, _ => done s none
  | .pqResultStatus none => ({}, s)
  | .pqResultStatus (some res) => done s ((s.1.results.lookup res).map fun result => ({ status := result.status }, s.1))
  | .pqGetvalue none => ({}, s)
  | .pqGetvalue (some res) => done s ((s.1.results.lookup res).map fun result =>
    ({ pointer := result.value?.map fun _ => res }, s.1))
  | .atoi value => done s do
    let text ← (← s.1.results.lookup value).value?
    return ({ number := AtherosCsi.atoi text }, s.1)
  | .pqClear none => ({}, s)
  | .pqClear (some res) => done s ((s.1.results.lookup res).map fun _ =>
    ({}, { s.1 with results := s.1.results.eraseP (·.1 = res) }))
  | .pqFinish conn => done s ((s.1.conns.lookup conn).map fun _ =>
    ({}, { s.1 with conns := s.1.conns.eraseP (·.1 = conn) }))

/-- There is memory for everything. -/
def Plenty : Prop := ∀ t size, (env.malloc t size).1 = true

/-- The server as a program without pointers finds it: a null pointer for a result is a failure. -/
def serve (t : σ) (query : List Char) : PGresult × σ := ((env.exec t query).1.getD .fatalError, (env.exec t query).2)

/-- The start of a program without pointers: `PQstatus` of a null pointer is `CONNECTION_BAD`. -/
def startup (m : Startup) : Startup := { m with connectdb := fun connInfo => (env.connectdb connInfo).getD false }

end Env

end AtherosCsi
