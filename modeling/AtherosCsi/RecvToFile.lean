import AtherosCsi.CsiFun
import AtherosCsi.Lib.LittleEndian

/-! The main loop of `recvCSIToFile/main.c`. Each round reads from the device, decodes what came and
    appends it to the log. What the loop prints is left out. -/

namespace AtherosCsi
open LittleEndian

/-- What a read of the device can give: an error, nothing within the time limit, or some bytes. -/
inductive ReadOutcome where
  | error
  | timeout
  | packet (bytes : List UInt8) (h : 0 < bytes.length ∧ bytes.length ≤ 4096)

/-- `read_csi_buf`: the number of bytes read, or -1, and the buffer, whose other bytes stay as they were. -/
def readCsiBuf (buf : BufAddr) : ReadOutcome → ℤ × BufAddr
  | .error => (-1, buf)
  | .timeout => (0, buf)
  | .packet bytes _ => (bytes.length, buf.overlay bytes)

structure RecvState where
  bufAddr : BufAddr
  dataBuf : DataBuf
  csiMatrix : CsiMatrix
  csiStatus : CsiStruct
  file : List UInt8

def Host.shortBytes (h : Host) (a : UInt16) : List UInt8 :=
  match h.byteOrder with
  | .little => [a.toUInt8, (a >>> 8).toUInt8]
  | .big => [(a >>> 8).toUInt8, a.toUInt8]

theorem toNat_low (a : UInt16) : a.toUInt8.toNat = a.toNat % 256 := UInt16.toNat_toUInt8 a

theorem toNat_high (a : UInt16) : (a >>> 8).toUInt8.toNat = a.toNat / 256 := by
  have ha := a.toNat_lt
  rw [UInt16.toNat_toUInt8, UInt16.toNat_shiftRight, Nat.shiftRight_eq_div_pow]
  exact Nat.mod_eq_of_lt (by simp; omega)

theorem Host.length_shortBytes (h : Host) (a : UInt16) : (h.shortBytes a).length = 2 := by
  unfold shortBytes
  cases h.byteOrder <;> rfl

theorem Host.shortBytes_little {h : Host} (hh : h.byteOrder = .little) (a : UInt16) :
    h.shortBytes a = leBytes 2 a.toNat := by
  refine leVal_inj (by rw [h.length_shortBytes, length_leBytes]) ?_
  rw [leVal_leBytes_of_lt a.toNat_lt, shortBytes, hh]
  rw [leVal_cons, leVal_cons, leVal_nil, toNat_high, toNat_low]
  omega

/-- What a packet adds to the log: `buf_len` as it stands in memory, and that many bytes of the buffer. -/
def logPacket (h : Host) (logFlag : Bool) (buf : BufAddr) (bufLen : UInt16) : Option (List UInt8) :=
  if logFlag then do return h.shortBytes bufLen ++ (← buf.first? bufLen.toNat) else some []

/-- The body of `if (cnt)`, with the buffer and the count of the last read. -/
def recvPacket (h : Host) (logFlag : Bool) (s : RecvState) (cnt : ℤ) (bufAddr : BufAddr) : Option RecvState := do
  let csiStatus ← recordStatus h bufAddr cnt s.csiStatus
  let (dataBuf, csiMatrix) ← recordCsiPayload bufAddr csiStatus s.dataBuf s.csiMatrix
  let logged ← logPacket h logFlag bufAddr csiStatus.bufLen
  return { bufAddr, dataBuf, csiMatrix, csiStatus, file := s.file ++ logged }

def recvStep (h : Host) (logFlag : Bool) (s : RecvState) (o : ReadOutcome) : Option RecvState :=
  let (cnt, bufAddr) := readCsiBuf s.bufAddr o
  if cnt ≠ 0 then recvPacket h logFlag s cnt bufAddr else some { s with bufAddr }

def recvLoop (h : Host) (logFlag : Bool) (s : RecvState) (os : List ReadOutcome) : Option RecvState :=
  os.foldlM (recvStep h logFlag) s

end AtherosCsi
