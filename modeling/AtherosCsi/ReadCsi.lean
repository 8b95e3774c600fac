import AtherosCsi.CsiFun

/-! `matlab/read_csi.c`, the unpacker that MATLAB calls. It fills two column-major arrays of doubles, one
    for the real and one for the imaginary parts, through pointers that it moves on after each entry. All
    values are integers that a double holds exactly. -/

namespace AtherosCsi

/-- A complex array as `mxCreateNumericArray` makes it: three dimensions and the parts in column-major order. -/
structure MxArray where
  nr : ℕ
  nc : ℕ
  numTones : ℕ
  pr : List ℤ
  pi : List ℤ
  deriving DecidableEq, Repr

def MxArray.index (a : MxArray) (r c k : ℕ) : ℕ := r + a.nr * (c + a.nc * k)

/-- The arrays under construction, with the offsets of `ptrR` and `ptrI` in them. -/
structure MexState where
  pr : List ℤ
  pi : List ℤ
  ptrR : ℕ
  ptrI : ℕ

/-- `*ptrI = (double) imag; ++ptrI;` -/
def MexState.putImag (s : MexState) (imag : Int32) : Option MexState :=
  if s.ptrI < s.pi.length then some { s with pi := s.pi.set s.ptrI imag.toInt, ptrI := s.ptrI + 1 } else none

/-- `*ptrR = (double) real; ++ptrR;` -/
def MexState.putReal (s : MexState) (real : Int32) : Option MexState :=
  if s.ptrR < s.pr.length then some { s with pr := s.pr.set s.ptrR real.toInt, ptrR := s.ptrR + 1 } else none

/-- `mexFunction`, called with an array of bytes and three numbers: `bits_left` and the loop counters are `int`. -/
def mexFunction (localH : ℕ → Option UInt8) (nr nc numTones : ℕ) : Option MxArray := do
  let zeros := List.replicate (nr * nc * numTones) 0
  let s ← unpack 32 true localH nr nc numTones (fun _ _ _ imag s => MexState.putImag s imag)
    (fun _ _ _ real s => MexState.putReal s real) ⟨zeros, zeros, 0, 0⟩
  return ⟨nr, nc, numTones, s.pr, s.pi⟩

/-- The call `read_csi(csi_buf, nr, nc, num_tones)` of `read_log_file.m`. Behind the end of `csi_buf` the
    memory holds `past`, whatever that is. An empty `nr`, `nc` or `num_tones` is a null pointer. -/
def readCsi (past : ℕ → UInt8) (csiBuf : List UInt8) (nr nc numTones : Option ℕ) : Option MxArray := do
  mexFunction (fun i => some (csiBuf[i]?.getD (past i))) (← nr) (← nc) (← numTones)

end AtherosCsi
