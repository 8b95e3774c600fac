import Mathlib.Data.List.DropRight
import AtherosCsi.ReadCsi
import AtherosCsi.ReadLogFile
import AtherosCsi.Lib.MatArray
import AtherosCsi.Lib.Scanf

/-! The MATLAB scripts that arrange the packets of a log: `matlab/get_all_csi_streams.m`,
    `matlab/subcarrier_pertime.m`, `matlab/test_time_mean.m` up to the means, and `matlab/test_fft_mean.m`, which
    returns before its transforms. Time stamps and indices are exact. A script that fails with an error gives
    `none`. -/

namespace AtherosCsi
open MatArray Scanf

/-- The cell array of records that `read_log_file` returns. -/
abbrev Trace (α : Type) := List (LogEntry (Array3 α))

/-- The array that `read_csi` returns, as the scripts index it. Its two lists have an element for each index. -/
def MxArray.toArray3 (a : MxArray) : Array3 (ℤ × ℤ) :=
  ⟨a.nr, a.nc, a.numTones, fun r c k => (a.pr[a.index r c k]?.getD 0, a.pi[a.index r c k]?.getD 0)⟩

def scriptEntry (e : LogEntry (Option MxArray)) : Option (LogEntry (Array3 (ℤ × ℤ))) := do
  let csi ←
    match e.csi with
    | .zero => some .zero
    | .array a => a.map fun a => MatField.array a.toArray3
  return { e.toLogHeader with csi, payload := e.payload }

/-- What `read_log_file` returns, for scripts that take every cell of it to hold a record. -/
def traceOf (ret : List (Option (LogEntry (Option MxArray)))) : Option (Trace (ℤ × ℤ)) :=
  ret.mapM fun e => e.bind scriptEntry

/-! ## Texts -/

def num2str (n : ℕ) : List Char := Nat.toDigits 10 n

/-- `strcat` of character arrays, which drops white space at the end of each. -/
def strcat (texts : List (List Char)) : List Char := texts.flatMap (·.rdropWhile isSpace)

section Scripts
variable {α : Type} [Zero α]

/-- `csi_matrix.csi`; the 0 of a packet without CSI has one row, one column and one page. -/
def csiDataOf (e : LogEntry (Array3 α)) : Array3 α :=
  match e.csi with
  | .zero => Array3.scalar 0
  | .array a => a

/-! ## `get_all_csi_streams` -/

/-- A structure with fields of matrices. -/
abbrev Fields (α : Type) := List Char → Option (Mat α)

def fieldName (m n : ℕ) : List Char := strcat [['a'], num2str m, num2str n]

def streamStep (data : Fields α) (e : LogEntry (Array3 α)) : Option (Fields α) := do
  let csiData := csiDataOf e
  let name := fieldName csiData.rows csiData.cols
  let csiDataInVector := Mat.row csiData.vector
  let allData ←
    match data name with
    | some allData => csiDataInVector.vertcat? allData
    | none => some csiDataInVector
  return Function.update data name (some allData)

def getAllCsiStreams (csi : Trace α) : Option (Fields α) := csi.foldlM streamStep fun _ => none

/-! ## `subcarrier_pertime` -/

/-- One round. The inner `none` is the variable `subcarriers` that does not exist yet. -/
def pertimeStep (numTones : ℕ) (subcarriers : Option (Array4 α)) (e : LogEntry (Array3 α)) :
    Option (Option (Array4 α)) :=
  let csiData := csiDataOf e
  if csiData.pages = numTones ∧ csiData.rows = 3 ∧ csiData.cols = 3 then
    match subcarriers with
    | some s => (s.push? csiData).map some
    | none => some (some (Array4.ofBlock csiData))
  else some subcarriers

/-- Where no record is kept, the output is never assigned. -/
def subcarrierPertime (csi : Trace α) : Option (Array4 α) := do
  let numTones ← (← csi.head?).numTones
  let subcarriers ← csi.foldlM (pertimeStep numTones) none
  subcarriers

/-! ## `test_time_mean` -/

structure TimeData (α : Type) where
  secData : List (Mat α)
  dsecData : List (Mat α)
  csecData : List (Mat α)

/-- `cell(1, floor(last / width) - floor(first / width) + 1)` -/
def timeCells (width first last : ℕ) : List (Mat α) :=
  List.replicate (((last / width : ℕ) : ℤ) - (first / width : ℕ) + 1).toNat Mat.empty

/-- `floor(trace_time / width) - floor(first / width) + 1` -/
def timeIndex (width first traceTime : ℕ) : ℤ := ((traceTime / width : ℕ) : ℤ) - (first / width : ℕ) + 1

def timeStep (first : ℕ) (csiData : Mat α) (s : TimeData α) (r : LogEntry (Array3 α) × ℕ) : Option (TimeData α) := do
  let traceTime ← r.1.timestamp
  let row ← csiData.row? r.2
  return {
    secData := ← appendAt? s.secData (timeIndex (10 ^ 6) first traceTime) row
    dsecData := ← appendAt? s.dsecData (timeIndex (10 ^ 5) first traceTime) row
    csecData := ← appendAt? s.csecData (timeIndex (10 ^ 4) first traceTime) row }

inductive TimeMean (α : Type) where
  | couldNotPrint
  | data (d : TimeData α)

/-- The records of a file, distributed over seconds, tenths and hundredths of a second. -/
def testTimeMean (readLogFile : List Char → Option (Trace α)) (filePath : List Char) (rx tx : ℕ) :
    Option (TimeMean α) := do
  let csi ← readLogFile filePath
  let csiData ← (← subcarrierPertime csi).lines? rx tx
  if csi.length ≠ csiData.rows.length then return .couldNotPrint
  else
    let first ← (← csi.head?).timestamp
    let last ← (← csi.getLast?).timestamp
    let start := ⟨timeCells (10 ^ 6) first last, timeCells (10 ^ 5) first last, timeCells (10 ^ 4) first last⟩
    return .data (← (csi.zipIdx 1).foldlM (timeStep first csiData) start)

/-! ## `test_fft_mean` -/

/-- The variables that the loop carries on; `max_data` and `samples_data` do not exist at first. -/
structure FftState (α : Type) where
  lastIndex : ℤ
  maxData : Option ℕ
  samplesData : Option (Slices α)

/-- `round(csi_index * 1.2)`. The product is never halfway between two numbers. -/
def maxDataOf (csiIndex : ℕ) : ℕ := (12 * csiIndex + 5) / 10

def sampleFile (testDirPrefix : List Char) (i : ℕ) : List Char := strcat [testDirPrefix, ['_'], num2str i]

def fftStep (readLogFile : List Char → Option (Trace α)) (testDirPrefix : List Char) (rx tx : ℕ) (s : FftState α)
    (i : ℕ) : Option (FftState α) := do
  let atherosCsi ← readLogFile (sampleFile testDirPrefix i)
  let csi ← (← subcarrierPertime atherosCsi).lines? rx tx
  let csiIndex := csi.rows.length
  let shorter := s.lastIndex = -1 ∨ s.lastIndex > csiIndex
  let lastIndex : ℤ := if shorter then csiIndex else s.lastIndex
  let maxData := if shorter ∧ s.lastIndex = -1 then some (maxDataOf csiIndex) else s.maxData
  let csiAdjusted ← csi.takeRows? lastIndex.toNat
  let samplesData ← Slices.push? s.samplesData (csiAdjusted.padRows (← maxData))
  return ⟨lastIndex, maxData, some samplesData⟩

def testFftMean (readLogFile : List Char → Option (Trace α)) (testDirPrefix : List Char) (numTraces rx tx : ℕ) :
    Option (Slices α) := do
  let s ← (List.range' 1 numTraces).foldlM (fftStep readLogFile testDirPrefix rx tx) ⟨-1, none, none⟩
  (← s.samplesData).takeRows? s.lastIndex.toNat

end Scripts

end AtherosCsi
