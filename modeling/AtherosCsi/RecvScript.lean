import AtherosCsi.RecvToFile
import AtherosCsi.ReadCsi
import AtherosCsi.Scripts
import AtherosCsi.Lib.SqlText

/-! `main` of `recvCSIToFile/main.c` as a process, and `recv.sh`, which starts it again and again. What `fwrite` takes
    goes to the disk in its order, but only when the library sees fit, and what has not got there when a signal ends
    the process is lost. `main` never installs `sig_handler`, so `quit` stays 0, and Ctrl+C ends the process as
    `kill -9` does. -/

namespace AtherosCsi
open Sql

/-! ## The process -/

/-- The process in its loop. All that `fwrite` has taken is in `recv.file`, and the first `flushed` bytes of it are on
    the disk. -/
structure RecvProcess where
  recv : RecvState
  flushed : ℕ

inductive RecvEvent where
  | read (o : ReadOutcome)
  | flush (n : ℕ)

namespace RecvProcess

def disk (p : RecvProcess) : List UInt8 := p.recv.file.take p.flushed

def step (h : Host) (logFlag : Bool) (p : RecvProcess) : RecvEvent → Option RecvProcess
  | .read o => (recvStep h logFlag p.recv o).map fun recv => { p with recv }
  | .flush n => some { p with flushed := min (p.flushed + n) p.recv.file.length }

def run (h : Host) (logFlag : Bool) (p : RecvProcess) (es : List RecvEvent) : Option RecvProcess := es.foldlM (step h logFlag) p

end RecvProcess

/-- What `main` finds when it starts: whether its output file can be opened, the descriptor of the device, and the
    memory behind `csi_status`. -/
structure FileStartup where
  fopen : Bool
  openCsiDevice : ℤ
  csiStatus : CsiStruct

/-- `main`, called with `argc` arguments and ended by a signal after some events: what is in the output file, if there
    is one. -/
def recvFileMain (h : Host) (argc : ℕ) (m : FileStartup) (es : List RecvEvent) : Option (Option (List UInt8)) :=
  -- `fclose` of the null pointer
  if argc = 2 ∧ m.fopen = false then none
  else if argc > 2 then some none
  else if m.openCsiDevice < 0 then some (if argc = 2 then some [] else none)
  else do
    let p ← RecvProcess.run h (argc = 2) ⟨⟨BufAddr.zero, DataBuf.zero, CsiMatrix.zero, m.csiStatus, []⟩, 0⟩ es
    return if argc = 2 then some p.disk else none

/-! ## The script -/

/-- A directory of files. -/
abbrev Files : Type := List Char → Option (List UInt8)

/-- `$3_$i`, one word for the shell where `$3` has no white space. -/
def captureName (name : List Char) (i : ℕ) : List Char := name ++ '_' :: decimal i

/-- `recv.sh`, whose first argument is `n` and whose third one is `name`. In its round `i` it ends the receiver after the
    events that `runs i` tells. -/
def recvScript (h : Host) (n : ℕ) (name : List Char) (runs : ℕ → FileStartup × List RecvEvent) (fs : Files) : Option Files :=
  (List.range' 1 n).foldlM (fun fs i => do
    match ← recvFileMain h 2 (runs i).1 (runs i).2 with
    | some file => return Function.update fs (captureName name i) (some file)
    | none => return fs) fs

/-- `read_log_file` for the scripts: the file of a name, read and taken for records. Behind its buffer `read_csi` finds
    `past`. -/
def readTrace (past : List Char → ℕ → ℕ → UInt8) (fs : Files) (path : List Char) : Option (Trace (ℤ × ℤ)) := do
  let file ← fs path
  (readLogFile (fun off => readCsi (past path off)) file).toOption.bind traceOf

end AtherosCsi
