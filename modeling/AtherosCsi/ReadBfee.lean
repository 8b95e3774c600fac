import AtherosCsi.Lib.BitFields
import AtherosCsi.Scripts

/-! `matlab/read_bfee.c`, the unpacker that MATLAB calls for a report of an Intel card, and the reports as it
    takes them to be. A `char` is signed. The function checks the length that the report announces, and never
    the length of the array that it is given; a read behind the end of that array gives `none`. -/

namespace AtherosCsi
open LittleEndian BitFields MatArray

/-- The fields of the structure that `read_bfee` returns. -/
structure Bfee where
  timestampLow : UInt32
  bfeeCount : UInt16
  nrx : UInt8
  ntx : UInt8
  rssiA : UInt8
  rssiB : UInt8
  rssiC : UInt8
  noise : Int8
  agc : UInt8
  perm : List ℕ
  rate : UInt16
  csi : Array3 (ℤ × ℤ)

/-- `mexErrMsgIdAndTxt` -/
structure MexError where
  id : String
  text : String
  deriving DecidableEq, Repr

def wrongSize : MexError := ⟨"MIMOToolbox:read_bfee_new:size", "Wrong beamforming matrix size."⟩

def calcLen (nrx ntx : UInt8) : UInt32 := (30 * (nrx.toUInt32 * ntx.toUInt32 * 8 * 2 + 3) + 7) / 8

/-- `(a >> remainder) | (b << (8-remainder))`, stored in a `char`. -/
def joined (a b : UInt8) (remainder : ℕ) : Int8 := (UInt8.ofNat (a.toNat >>> remainder ||| b.toNat <<< (8 - remainder))).toInt8

structure BfeeState where
  index : ℕ
  out : MexState

/-- One round of the inner loop. -/
def readEntry (payload : ℕ → Option UInt8) (remainder : ℕ) (s : BfeeState) : Option BfeeState := do
  let real := joined (← payload (s.index / 8)) (← payload (s.index / 8 + 1)) remainder
  let out ← s.out.putReal real.toInt32
  let imag := joined (← payload (s.index / 8 + 1)) (← payload (s.index / 8 + 2)) remainder
  let out ← out.putImag imag.toInt32
  return ⟨s.index + 16, out⟩

/-- One round of the outer loop. -/
def readTone (payload : ℕ → Option UInt8) (n : ℕ) (s : BfeeState) : Option BfeeState :=
  let index := s.index + 3
  Loop.forUp 32 0 n (fun _ => readEntry payload (index % 8)) { s with index }

def permOf (antennaSel : UInt8) : List ℕ :=
  [(antennaSel &&& 3).toNat + 1, ((antennaSel >>> 2) &&& 3).toNat + 1, ((antennaSel >>> 4) &&& 3).toNat + 1]

def readBfee (inBytes : List UInt8) : Option (Except MexError Bfee) := do
  let byte := fun i : ℕ => inBytes[i]?
  let timestampLow := (← byte 0).toUInt32 + ((← byte 1).toUInt32 <<< 8) + ((← byte 2).toUInt32 <<< 16) +
    ((← byte 3).toUInt32 <<< 24)
  let bfeeCount := (← byte 4).toUInt16 + ((← byte 5).toUInt16 <<< 8)
  let nrx ← byte 8
  let ntx ← byte 9
  let rssiA ← byte 10
  let rssiB ← byte 11
  let rssiC ← byte 12
  let noise := (← byte 13).toInt8
  let agc ← byte 14
  let antennaSel ← byte 15
  let len := (← byte 16).toUInt32 + ((← byte 17).toUInt32 <<< 8)
  let fakeRateNFlags := (← byte 18).toUInt16 + ((← byte 19).toUInt16 <<< 8)
  if len ≠ calcLen nrx ntx then return .error wrongSize
  else
    let zeros := List.replicate (ntx.toNat * nrx.toNat * 30) 0
    let s ← Loop.forUp 32 0 30 (fun _ => readTone (fun i => byte (20 + i)) (nrx.toNat * ntx.toNat)) ⟨0, zeros, zeros, 0, 0⟩
    return .ok {
      timestampLow, bfeeCount, nrx, ntx, rssiA, rssiB, rssiC, noise, agc
      perm := permOf antennaSel, rate := fakeRateNFlags
      csi := MxArray.toArray3 ⟨ntx.toNat, nrx.toNat, 30, s.out.pr, s.out.pi⟩ }

/-! ## Reports -/

/-- What a report carries: 30 subcarriers, each with an entry for every pair of antennas behind three bits that
    the reader skips, and six bits at the end. -/
structure Report where
  timestampLow : UInt32
  bfeeCount : UInt16
  reserved : UInt16
  nrx : UInt8
  ntx : UInt8
  rssiA : UInt8
  rssiB : UInt8
  rssiC : UInt8
  noise : Int8
  agc : UInt8
  antennaSel : UInt8
  rate : UInt16
  skipped : ℕ → Fin 8
  real : ℕ → ℕ → ℕ → Int8
  imag : ℕ → ℕ → ℕ → Int8
  spare : Fin 64
  fits : 60 * (nrx.toNat * ntx.toNat) + 12 < 2 ^ 16

namespace Report
variable (x : Report)

def len : ℕ := 60 * (x.nrx.toNat * x.ntx.toNat) + 12

def byteField (b : Int8) : Field := ⟨8, b.toUInt8.toNat, b.toUInt8.toNat_lt⟩

def entryFields (i r t : ℕ) : List Field := [byteField (x.real i r t), byteField (x.imag i r t)]

def antennaFields (i r : ℕ) : List Field := (List.range x.ntx.toNat).flatMap (x.entryFields i r)

/-- A subcarrier: the transmit antenna varies fastest. -/
def toneFields (i : ℕ) : List Field := ⟨3, x.skipped i, (x.skipped i).isLt⟩ :: (List.range x.nrx.toNat).flatMap (x.antennaFields i)

def fields : List Field := (List.range 30).flatMap x.toneFields ++ [⟨6, x.spare, x.spare.isLt⟩]

def header : List UInt8 :=
  leBytes 4 x.timestampLow.toNat ++ leBytes 2 x.bfeeCount.toNat ++ leBytes 2 x.reserved.toNat ++
    [x.nrx, x.ntx, x.rssiA, x.rssiB, x.rssiC, x.noise.toUInt8, x.agc, x.antennaSel] ++ leBytes 2 x.len ++ leBytes 2 x.rate.toNat

def bytes : List UInt8 := x.header ++ leBytes x.len (pack x.fields)

/-- What the reader makes of it. -/
def bfee : Bfee where
  timestampLow := x.timestampLow
  bfeeCount := x.bfeeCount
  nrx := x.nrx
  ntx := x.ntx
  rssiA := x.rssiA
  rssiB := x.rssiB
  rssiC := x.rssiC
  noise := x.noise
  agc := x.agc
  perm := permOf x.antennaSel
  rate := x.rate
  csi := ⟨x.ntx.toNat, x.nrx.toNat, 30, fun t r i => ((x.real i r t).toInt, (x.imag i r t).toInt)⟩

end Report

end AtherosCsi
