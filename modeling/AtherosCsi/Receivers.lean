import AtherosCsi.Persistence
import Mathlib.Logic.Function.Basic

/-! Several receivers that share a database. Each one is a process of its own and works through its calls of
    `save_csi` one after the other; the server takes their statements one by one, in any order. -/

namespace AtherosCsi

/-- A call that has not returned yet: what is left of it, and the rows that its statements have added. -/
structure Running where
  call : Call
  rest : PgProg
  statusAdded : List StatusRow
  dataAdded : List DataRow

structure Receiver where
  conn : Bool
  todo : List Call
  current : Option Running

def Receiver.query? (r : Receiver) : Option (List Char) := r.current.bind fun run => run.rest.query?

/-- The receivers, their server, and the calls that have returned, in that order. -/
structure Receivers (ι : Type) where
  server : Server
  receiver : ι → Receiver
  log : List CallLog

namespace Receivers
variable {ι : Type} [DecidableEq ι]

def start (server : Server) (conn : ι → Bool) (todo : ι → List Call) : Receivers ι :=
  ⟨server, fun i => ⟨conn i, todo i, none⟩, []⟩

def setReceiver (s : Receivers ι) (i : ι) (r : Receiver) : Receivers ι := { s with receiver := Function.update s.receiver i r }

@[simp] theorem receiver_setReceiver_self (s : Receivers ι) (i : ι) (r : Receiver) : (s.setReceiver i r).receiver i = r := by
  simp [setReceiver]

theorem receiver_setReceiver_of_ne (s : Receivers ι) {i j : ι} (h : j ≠ i) (r : Receiver) :
    (s.setReceiver i r).receiver j = s.receiver j := by
  simp [setReceiver, h]

/-- The next step of receiver `i`: it begins a call, sends a statement, or returns from a call. A receiver
    that crashes is gone. -/
def step (s : Receivers ι) (i : ι) : Receivers ι :=
  let r := s.receiver i
  match r.current with
  | none =>
    match r.todo with
    | [] => s
    | c :: todo => s.setReceiver i { r with todo, current := some ⟨c, saveCsi r.conn c.csiStatus c.csiMatrix, [], []⟩ }
  | some run =>
    match run.rest with
    | .ret (returned, conn) =>
      { s.setReceiver i ⟨conn, r.todo, none⟩ with
        log := s.log ++ [⟨run.call, returned, run.statusAdded, run.dataAdded⟩] }
    | .crash => s.setReceiver i ⟨r.conn, [], none⟩
    | .call query k =>
      let (res, server) := s.server.exec query
      { s.setReceiver i { r with current := some {
          call := run.call
          rest := k res
          statusAdded := run.statusAdded ++ server.db.status.rows.drop s.server.db.status.rows.length
          dataAdded := run.dataAdded ++ server.db.data.rows.drop s.server.db.data.rows.length } } with server }

def run (s : Receivers ι) (schedule : List ι) : Receivers ι := schedule.foldl step s

end Receivers

end AtherosCsi
