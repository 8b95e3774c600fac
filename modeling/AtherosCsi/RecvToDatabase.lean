import AtherosCsi.Persistence
import AtherosCsi.RecvToFile

/-! The main loop of `recvCSIToDatabase/main.c`. Each round reads from the device, decodes what came and
    saves it. The connection is opened once before the loop, and the loop looks neither at it nor at what
    `save_csi` returns. -/

namespace AtherosCsi

structure DbGlobals where
  bufAddr : BufAddr
  dataBuf : DataBuf
  csiMatrix : CsiMatrix
  csiStatus : CsiStruct

/-- What happens outside in one round: the read of the device, and the clock. -/
structure Round where
  outcome : ReadOutcome
  clock : Timespec

/-- The calls of `record_status` and `record_csi_payload` in one round, and the arguments that are left for
    `save_csi`, if it is called. -/
def decodeRound (h : Host) (g : DbGlobals) (r : Round) : Option (DbGlobals × Option Call) :=
  let (cnt, bufAddr) := readCsiBuf g.bufAddr r.outcome
  if cnt ≠ 0 then do
    let csiStatus ← recordStatusDb h r.clock bufAddr cnt g.csiStatus
    let (dataBuf, csiMatrix) ← recordCsiPayload bufAddr csiStatus g.dataBuf g.csiMatrix
    return ({ bufAddr, dataBuf, csiMatrix, csiStatus }, some { csiStatus, csiMatrix })
  else some ({ g with bufAddr }, none)

structure DbRecvState where
  globals : DbGlobals
  session : Session

def dbRecvStep (h : Host) (s : DbRecvState) (r : Round) : Option DbRecvState := do
  let (globals, call) ← decodeRound h s.globals r
  match call with
  | none => return { s with globals }
  | some c => return { globals, session := ← s.session.save c }

def dbRecvLoop (h : Host) (s : DbRecvState) (rs : List Round) : Option DbRecvState := rs.foldlM (dbRecvStep h) s

def decodeRounds (h : Host) (g : DbGlobals) : List Round → Option (DbGlobals × List Call)
  | [] => some (g, [])
  | r :: rs => do
    let (g, call) ← decodeRound h g r
    let (g, calls) ← decodeRounds h g rs
    return (g, call.toList ++ calls)

end AtherosCsi
