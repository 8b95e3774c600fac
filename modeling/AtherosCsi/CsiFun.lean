import AtherosCsi.Lib.CArray
import AtherosCsi.Lib.Loop

/-! The packet decoder of `csi_fun.c`: `record_status` reads the status fields of a packet,
    `record_csi_payload` copies its payload and unpacks its CSI with `fill_csi_matrix`. The copies of the
    file in `recvCSIToFile` and `recvCSIToDatabase` differ in `record_status` only.

    Every array access may be out of range and then gives `none`. What the two programs of `csi_fun.c`
    and the MATLAB reader `read_csi.c` do alike, the unpacking of 10-bit numbers from 16-bit words, is
    written once (`unpack`) for any width of the counters and any way to store an entry. -/

namespace AtherosCsi
open Loop

/-! ## Data -/

structure Complex where
  real : Int32
  imag : Int32
  deriving DecidableEq, Repr

/-- `csi_matrix[3][3][114]`, by receive antenna, transmit antenna and subcarrier. -/
@[ext] structure CsiMatrix where
  cell : Fin 3 → Fin 3 → Fin 114 → Complex

/-- Replaces the cell `[r][c][k]`, or gives `none` for an index outside the matrix. -/
def CsiMatrix.modify? (m : CsiMatrix) (r c k : ℕ) (f : Complex → Complex) : Option CsiMatrix :=
  if r < 3 ∧ c < 3 ∧ k < 114 then
    some ⟨fun i j l => if (i : ℕ) = r ∧ (j : ℕ) = c ∧ (l : ℕ) = k then f (m.cell i j l) else m.cell i j l⟩
  else none

/-- The dimensions stay inside `csi_matrix`, or there is no entry at all. -/
def DimsFit (nr nc numTones : ℕ) : Prop :=
  nr = 0 ∨ nc = 0 ∨ numTones = 0 ∨ nr ≤ 3 ∧ nc ≤ 3 ∧ numTones ≤ 114

instance (nr nc numTones : ℕ) : Decidable (DimsFit nr nc numTones) := by unfold DimsFit; infer_instance

theorem DimsFit.of_le {nr nc numTones : ℕ} (h : nr ≤ 3 ∧ nc ≤ 3 ∧ numTones ≤ 114) : DimsFit nr nc numTones :=
  Or.inr (Or.inr (Or.inr h))

theorem DimsFit.entries_le {nr nc numTones : ℕ} (h : DimsFit nr nc numTones) : numTones * nc * nr ≤ 1026 := by
  rcases h with rfl | rfl | rfl | ⟨hnr, hnc, hnt⟩
  · simp
  · simp
  · simp
  · exact Nat.mul_le_mul (Nat.mul_le_mul hnt hnc) hnr

/-- `csi_struct`, the status of a received packet. -/
structure CsiStruct where
  tstamp : UInt64
  channel : UInt16
  chanBW : UInt8
  rate : UInt8
  nr : UInt8
  nc : UInt8
  numTones : UInt8
  noise : UInt8
  phyerr : UInt8
  rssi : UInt8
  rssi0 : UInt8
  rssi1 : UInt8
  rssi2 : UInt8
  payloadLen : UInt16
  csiLen : UInt16
  bufLen : UInt16
  deriving DecidableEq, Repr

abbrev BufAddr : Type := CArray 4096 UInt8

abbrev DataBuf : Type := CArray 1500 UInt8

/-- `csi_st_len`, the number of status bytes in front of the payload length. -/
abbrev csiStLen : ℕ := 23

/-! The globals before the first packet: static memory is zero, `csi_status` points to memory from `malloc`,
    which may hold anything. -/

def BufAddr.zero : BufAddr := ⟨fun _ => 0⟩

def DataBuf.zero : DataBuf := ⟨fun _ => 0⟩

def CsiMatrix.zero : CsiMatrix := ⟨fun _ _ _ => ⟨0, 0⟩⟩

def CsiStruct.zero : CsiStruct := ⟨0, 0, 0, 0, 0, 0, 0, 0, 0, 0, 0, 0, 0, 0, 0, 0⟩

/-! ## The host -/

inductive ByteOrder where
  | little
  | big
  deriving DecidableEq, Repr

/-- What the decoder's result may depend on besides its arguments: the byte order of the host, and what
    its compiler makes of `b << n` when `n` is not below the 32 bits of an `int`, which C leaves undefined. -/
structure Host where
  byteOrder : ByteOrder
  wideShl : UInt8 → ℕ → UInt32

def Host.x86 : Host := ⟨.little, fun b n => b.toUInt32 <<< n.toUInt32⟩

def Host.intBytes (h : Host) (a : UInt32) : List UInt8 :=
  let low := [a.toUInt8, (a >>> 8).toUInt8, (a >>> 16).toUInt8, (a >>> 24).toUInt8]
  match h.byteOrder with
  | .little => low
  | .big => low.reverse

/-- The test that `csi_fun.c` makes for its host: whether the first byte of the `int` 0x1234 is 0x12. -/
def isBigEndian (h : Host) : Bool :=
  let b := (h.intBytes 0x1234).head?
  b == some 0x12

def Host.shl (h : Host) (b : UInt8) (n : ℕ) : UInt32 :=
  if n < 32 then b.toUInt32 <<< n.toUInt32 else h.wideShl b n

/-! ## Unpacking CSI -/

/-- `bit_convert` of `csi_fun.c` and `signbit_convert` of `read_csi.c`: sign extension from `maxbit` bits. -/
def bitConvert (data maxbit : Int32) : Int32 :=
  if data &&& ((1 : Int32) <<< (maxbit - 1)) ≠ 0 then data - ((1 : Int32) <<< maxbit) else data

/-- The words fetched and not yet used up: `idx`, `current_data`, and `bits_left` in a variable of `w` bits. -/
structure Reservoir (w : ℕ) where
  idx : UInt32
  currentData : UInt32
  bitsLeft : BitVec w

def promote (signed : Bool) {w : ℕ} (x : BitVec w) : ℤ := if signed then x.toInt else x.toNat

/-- `h_data = csi_addr[idx++]; h_data += (csi_addr[idx++] << 8);` -/
def fetch (mem : ℕ → Option UInt8) (idx : UInt32) : Option (UInt32 × UInt32) := do
  let lo ← mem idx.toNat
  let hi ← mem (idx + 1).toNat
  return (lo.toUInt32 + (hi.toUInt32 <<< 8), idx + 1 + 1)

namespace Reservoir
variable {w : ℕ}

def start (mem : ℕ → Option UInt8) : Option (Reservoir w) := do
  let (hData, idx) ← fetch mem 0
  return ⟨idx, hData &&& (((1 : UInt32) <<< 16) - 1), 16⟩

def refill (signed : Bool) (mem : ℕ → Option UInt8) (q : Reservoir w) : Option (Reservoir w) :=
  if promote signed q.bitsLeft - 10 < 0 then do
    let (hData, idx) ← fetch mem q.idx
    return ⟨idx, q.currentData + (hData <<< (promote signed q.bitsLeft).toNat.toUInt32), q.bitsLeft + 16⟩
  else some q

def value (q : Reservoir w) : Int32 := bitConvert (q.currentData &&& (((1 : UInt32) <<< 10) - 1)).toInt32 10

def drop (q : Reservoir w) : Reservoir w :=
  { q with bitsLeft := q.bitsLeft - 10, currentData := q.currentData >>> 10 }

end Reservoir

section Unpack
variable {σ : Type} {w : ℕ}

/-- The body of the innermost loop: first the imaginary part of entry `[r][c][k]`, then its real part. -/
def unpackEntry (signed : Bool) (mem : ℕ → Option UInt8) (setImag setReal : ℕ → ℕ → ℕ → Int32 → σ → Option σ)
    (k c r : BitVec w) (s : Reservoir w × σ) : Option (Reservoir w × σ) := do
  let q ← s.1.refill signed mem
  let x ← setImag r.toNat c.toNat k.toNat q.value s.2
  let q ← q.drop.refill signed mem
  let x ← setReal r.toNat c.toNat k.toNat q.value x
  return (q.drop, x)

/-- The three nested loops, over subcarriers, transmit antennas and receive antennas, with counters of
    `w` bits. -/
def unpack (w : ℕ) (signed : Bool) (mem : ℕ → Option UInt8) (nr nc numTones : ℕ)
    (setImag setReal : ℕ → ℕ → ℕ → Int32 → σ → Option σ) (x : σ) : Option σ := do
  let q ← Reservoir.start (w := w) mem
  let s ← forUp w 0 numTones (fun k => forUp w 0 nc fun c => forUp w 0 nr fun r =>
    unpackEntry signed mem setImag setReal k c r) (q, x)
  return s.2

end Unpack

/-- `fill_csi_matrix`: `bits_left` and the loop counters are `u_int8_t`. -/
def fillCsiMatrix (csiAddr : ℕ → Option UInt8) (nr nc numTones : ℕ) (csiMatrix : CsiMatrix) : Option CsiMatrix :=
  unpack 8 false csiAddr nr nc numTones
    (fun r c k imag m => m.modify? r c k fun z => { z with imag })
    (fun r c k real m => m.modify? r c k fun z => { z with real })
    csiMatrix

/-! ## Reading a packet -/

/-- `((hi << 8) & 0xff00) | (lo & 0x00ff)`, stored in a `u_int16_t`. -/
def word16 (hi lo : UInt8) : UInt16 :=
  (((hi.toUInt32 <<< 8) &&& 0xff00) ||| (lo.toUInt32 &&& 0x00ff)).toUInt16

/-- One term of `tstamp`: the `int` on the left of `&` is sign-extended to the 64 bits of the mask. -/
def tstampTerm (h : Host) (b : UInt8) (n : ℕ) (mask : UInt64) : UInt64 :=
  (h.shl b n).toInt32.toInt64.toUInt64 &&& mask

/-- The expression for `tstamp` over the bytes `a₀`, ..., `a₇` in the order in which it names them. -/
def tstampOf (h : Host) (a₀ a₁ a₂ a₃ a₄ a₅ a₆ a₇ : UInt8) : UInt64 :=
  tstampTerm h a₀ 56 0x00000000000000ff ||| tstampTerm h a₁ 48 0x000000000000ff00 |||
  tstampTerm h a₂ 40 0x0000000000ff0000 ||| tstampTerm h a₃ 32 0x00000000ff000000 |||
  tstampTerm h a₄ 24 0x000000ff00000000 ||| tstampTerm h a₅ 16 0x0000ff0000000000 |||
  tstampTerm h a₆ 8 0x00ff000000000000 ||| tstampTerm h a₇ 0 0xff00000000000000

def BufAddr.word (buf : BufAddr) (hi lo : ℤ) : Option UInt16 := do
  return word16 (← buf.get? hi) (← buf.get? lo)

/-- The status fields of one byte each, which end both versions of `record_status`. -/
def recordStatusBytes (buf : BufAddr) (st : CsiStruct) : Option CsiStruct := do
  return { st with
    phyerr := ← buf.get? 12
    noise := ← buf.get? 13
    rate := ← buf.get? 14
    chanBW := ← buf.get? 15
    numTones := ← buf.get? 16
    nr := ← buf.get? 17
    nc := ← buf.get? 18
    rssi := ← buf.get? 19
    rssi0 := ← buf.get? 20
    rssi1 := ← buf.get? 21
    rssi2 := ← buf.get? 22 }

def recordStatus (h : Host) (buf : BufAddr) (cnt : ℤ) (st : CsiStruct) : Option CsiStruct := do
  let st ← if isBigEndian h then do
      pure { st with
        tstamp := tstampOf h (← buf.get? 0) (← buf.get? 1) (← buf.get? 2) (← buf.get? 3) (← buf.get? 4)
          (← buf.get? 5) (← buf.get? 6) (← buf.get? 7)
        csiLen := ← buf.word 8 9
        channel := ← buf.word 10 11
        bufLen := ← buf.word (cnt - 2) (cnt - 1)
        payloadLen := ← buf.word csiStLen (csiStLen + 1) }
    else do
      pure { st with
        tstamp := tstampOf h (← buf.get? 7) (← buf.get? 6) (← buf.get? 5) (← buf.get? 4) (← buf.get? 3)
          (← buf.get? 2) (← buf.get? 1) (← buf.get? 0)
        csiLen := ← buf.word 9 8
        channel := ← buf.word 11 10
        bufLen := ← buf.word (cnt - 1) (cnt - 2)
        payloadLen := ← buf.word (csiStLen + 1) csiStLen }
  recordStatusBytes buf st

structure Timespec where
  tvSec : Int64
  tvNsec : Fin 1000000000

/-- `final_ts`: milliseconds, rounded to the nearest one. -/
def Timespec.finalTs (spec : Timespec) : Int64 :=
  spec.tvSec * 1000 + Int64.ofNat ((spec.tvNsec + 500000) / 1000000)

/-- `record_status` of `recvCSIToDatabase`: the time stamp comes from the clock of the host, and only the
    branch for big-endian hosts reads `csi_len`. -/
def recordStatusDb (h : Host) (spec : Timespec) (buf : BufAddr) (cnt : ℤ) (st : CsiStruct) : Option CsiStruct := do
  let st ← if isBigEndian h then do
      pure { st with
        tstamp := spec.finalTs.toUInt64
        csiLen := ← buf.word 8 9
        channel := ← buf.word 10 11
        bufLen := ← buf.word (cnt - 2) (cnt - 1)
        payloadLen := ← buf.word csiStLen (csiStLen + 1) }
    else do
      pure { st with
        tstamp := spec.finalTs.toUInt64
        channel := ← buf.word 11 10
        bufLen := ← buf.word (cnt - 1) (cnt - 2)
        payloadLen := ← buf.word (csiStLen + 1) csiStLen }
  recordStatusBytes buf st

def copyPayload (buf : BufAddr) (csiLen payloadLen : ℕ) (dataBuf : DataBuf) : Option DataBuf :=
  forUp 32 1 (payloadLen + 1) (fun i data => do
    let x ← buf.get? (csiStLen + csiLen + i.toNat + 1)
    data.set? (i.toNat - 1) x) dataBuf

def recordCsiPayload (buf : BufAddr) (st : CsiStruct) (dataBuf : DataBuf) (csiMatrix : CsiMatrix) :
    Option (DataBuf × CsiMatrix) := do
  let dataBuf ← copyPayload buf st.csiLen.toNat st.payloadLen.toNat dataBuf
  let csiAddr := fun j : ℕ => buf.get? (csiStLen + 2 + j)
  let csiMatrix ← fillCsiMatrix csiAddr st.nr.toNat st.nc.toNat st.numTones.toNat csiMatrix
  return (dataBuf, csiMatrix)

end AtherosCsi
