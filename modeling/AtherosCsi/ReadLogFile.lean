import AtherosCsi.Lib.LittleEndian
import AtherosCsi.Lib.Loop

/-! `matlab/read_log_file.m`, the reader of the log that `recvCSIToFile` writes. The model starts with the
    file open and rewound, so a file is its bytes.

    A value that `fread` cannot read whole is MATLAB's empty array, here `none`. Comparing it gives an empty
    array too, which counts as false in a condition. The unpacker `read_csi` is a parameter; besides its
    four arguments it may depend on the file offset of the call, which stands for whatever memory it
    finds behind its buffer there. -/

namespace AtherosCsi
open LittleEndian Loop

/-! ## Values -/

/-- The double nearest to an unsigned 64-bit number, ties to even. -/
def toDouble (n : ℕ) : ℕ :=
  if n < 2 ^ 53 then n
  else
    let ulp := 2 ^ (n.log2 - 52)
    let q := n / ulp
    let r := n % ulp
    if 2 * r < ulp ∨ (2 * r = ulp ∧ q % 2 = 0) then q * ulp else (q + 1) * ulp

structure LogHeader where
  timestamp : Option ℕ
  csiLen : Option ℕ
  channel : Option ℕ
  errInfo : Option ℕ
  noiseFloor : Option ℕ
  rate : Option ℕ
  bandWidth : Option ℕ
  numTones : Option ℕ
  nr : Option ℕ
  nc : Option ℕ
  rssi : Option ℕ
  rssi1 : Option ℕ
  rssi2 : Option ℕ
  rssi3 : Option ℕ
  payloadLen : Option ℕ
  deriving DecidableEq, Repr

inductive MatField (α : Type) where
  | zero
  | array (a : α)
  deriving DecidableEq, Repr

/-- `csi_matrix`, the structure for one record. -/
structure LogEntry (γ : Type) extends LogHeader where
  csi : MatField γ
  payload : MatField (List UInt8)
  deriving DecidableEq, Repr

/-! ## Reading -/

/-- The bytes from the position of the file on, and the reader's own count `cur` of what it has passed. -/
structure Cursor where
  rest : List UInt8
  cur : ℕ
  deriving DecidableEq, Repr

theorem pure_apply {α : Type} (a : α) (c : Cursor) : (pure a : StateM Cursor α) c = (a, c) := rfl

theorem bind_apply {α β : Type} (m : StateM Cursor α) (f : α → StateM Cursor β) (c : Cursor) :
    (m >>= f) c = f (m c).1 (m c).2 := rfl

def readField (w : ℕ) : StateM Cursor (Option ℕ) := fun c =>
  (if w ≤ c.rest.length then some (leVal (c.rest.take w)) else none, ⟨c.rest.drop w, c.cur + w⟩)

def readBytes (n : ℕ) : StateM Cursor (List UInt8) := fun c => (c.rest.take n, ⟨c.rest.drop n, c.cur + n⟩)

def readHeader : StateM Cursor LogHeader := do
  let timestamp ← readField 8
  let csiLen ← readField 2
  let txChannel ← readField 2
  let errInfo ← readField 1
  let noiseFloor ← readField 1
  let rate ← readField 1
  let bandWidth ← readField 1
  let numTones ← readField 1
  let nr ← readField 1
  let nc ← readField 1
  let rssi ← readField 1
  let rssi1 ← readField 1
  let rssi2 ← readField 1
  let rssi3 ← readField 1
  let payloadLen ← readField 2
  return {
    timestamp := timestamp.map toDouble, csiLen, channel := txChannel, errInfo, noiseFloor, rate, bandWidth,
    numTones, nr, nc, rssi, rssi1, rssi2, rssi3, payloadLen }

section Reader
variable {γ : Type} (readCsi : ℕ → List UInt8 → Option ℕ → Option ℕ → Option ℕ → γ)

def readCsiField (h : LogHeader) : StateM Cursor (MatField γ) := do
  match h.csiLen with
  | none => return .zero
  | some csiLen =>
    if csiLen > 0 then
      let offset := (← get).cur
      let csiBuf ← readBytes csiLen
      return .array (readCsi offset csiBuf h.nr h.nc h.numTones)
    else return .zero

def readPayload (h : LogHeader) : StateM Cursor (MatField (List UInt8)) := do
  match h.payloadLen with
  | none => return .zero
  | some payloadLen =>
    if payloadLen > 0 then return .array (← readBytes payloadLen) else return .zero

/-- The three ways out of the loop: the loop condition, and the two `break` statements. -/
inductive Exit where
  | endOfFile
  | shortBlock
  | nearEnd
  deriving DecidableEq, Repr

/-- One round of the loop on a file of `len` bytes, up to where it stores the record. -/
def readBlock (len : ℕ) (c : Cursor) : Except Exit (LogEntry γ × Cursor) :=
  if c.cur + 4 < len then
    let fieldLen := readField 2 c
    if fieldLen.1.any fun n => fieldLen.2.cur + n > len then .error .shortBlock
    else
      let header := readHeader fieldLen.2
      let csi := readCsiField readCsi header.1 header.2
      let payload := readPayload header.1 csi.2
      if payload.2.cur + 420 > len then .error .nearEnd
      else .ok ({ header.1 with csi := csi.1, payload := payload.1 }, payload.2)
  else .error .endOfFile

/-! ## The loop -/

/-- `ret{i+1} = x`: the cell array grows when it has to. -/
def cellSet {α : Type} (ret : List (Option α)) (i : ℕ) (x : α) : List (Option α) :=
  if i < ret.length then ret.set i (some x) else ret ++ List.replicate (i - ret.length) none ++ [some x]

structure ReaderState (γ : Type) where
  cursor : Cursor
  count : ℕ
  ret : List (Option (LogEntry γ))

def readStep (len : ℕ) (s : ReaderState γ) : Option (ReaderState γ) :=
  match readBlock readCsi len s.cursor with
  | .error _ => none
  | .ok (e, c) => some { cursor := c, count := s.count + 1, ret := cellSet s.ret s.count e }

theorem readHeader_cursor (c : Cursor) : (readHeader c).2 = ⟨c.rest.drop 25, c.cur + 25⟩ := by
  simp only [readHeader, bind_apply, pure_apply, readField, List.drop_drop, Nat.add_assoc, Nat.reduceAdd]

theorem readCsiField_eq (h : LogHeader) (c : Cursor) :
    readCsiField readCsi h c =
      (if 0 < h.csiLen.getD 0 then .array (readCsi c.cur (c.rest.take (h.csiLen.getD 0)) h.nr h.nc h.numTones) else .zero,
        ⟨c.rest.drop (h.csiLen.getD 0), c.cur + h.csiLen.getD 0⟩) := by
  unfold readCsiField
  rcases h.csiLen with _ | n
  · rfl
  · rcases n with _ | n <;> rfl

theorem readPayload_eq (h : LogHeader) (c : Cursor) :
    readPayload h c =
      (if 0 < h.payloadLen.getD 0 then .array (c.rest.take (h.payloadLen.getD 0)) else .zero,
        ⟨c.rest.drop (h.payloadLen.getD 0), c.cur + h.payloadLen.getD 0⟩) := by
  unfold readPayload
  rcases h.payloadLen with _ | n
  · rfl
  · rcases n with _ | n <;> rfl

/-- A round that stores a record has passed its length, its header, its CSI and its payload, and stays at
    least 420 bytes before the end of the file. -/
theorem readBlock_cursor {len : ℕ} {c c' : Cursor} {e : LogEntry γ} (h : readBlock readCsi len c = .ok (e, c')) :
    c' = ⟨c.rest.drop (27 + e.csiLen.getD 0 + e.payloadLen.getD 0),
      c.cur + (27 + e.csiLen.getD 0 + e.payloadLen.getD 0)⟩ ∧ c'.cur + 420 ≤ len := by
  simp only [readBlock] at h
  split at h
  · split at h
    · cases h
    · split at h
      · cases h
      · rename_i hnear
        obtain ⟨rfl, rfl⟩ := Prod.mk.inj (Except.ok.inj h)
        simp only [readPayload_eq, readCsiField_eq, readHeader_cursor, readField, List.drop_drop] at hnear ⊢
        refine ⟨Cursor.mk.injEq .. ▸ ⟨congrArg (c.rest.drop ·) ?_, ?_⟩, by omega⟩ <;> omega
  · cases h

theorem readStep_decreases (len : ℕ) (s t : ReaderState γ) (h : readStep readCsi len s = some t) :
    len - t.cursor.cur < len - s.cursor.cur := by
  unfold readStep at h
  split at h
  · cases h
  · rename_i e c hb
    obtain ⟨hc, hlen⟩ := readBlock_cursor readCsi hb
    cases h
    subst hc
    simp only at hlen ⊢
    omega

def readLoop (len : ℕ) : ReaderState γ → ReaderState γ :=
  iterate (readStep readCsi len) (fun s => len - s.cursor.cur) (readStep_decreases readCsi len)

/-- The state before the loop: `cell(ceil(len / 420), 1)` and nothing read. -/
def readStart (γ : Type) (file : List UInt8) : ReaderState γ :=
  { cursor := ⟨file, 0⟩, count := 0, ret := List.replicate ((file.length + 419) / 420) none }

/-- `read_log_file` fails where it indexes an empty cell array. -/
inductive ReadError where
  | indexExceedsBounds
  deriving DecidableEq, Repr

/-- What `read_log_file` returns: the cells, `none` for one that was never assigned. -/
def readLogFile (file : List UInt8) : Except ReadError (List (Option (LogEntry γ))) :=
  let s := readLoop readCsi file.length (readStart γ file)
  if s.count > 1 then .ok (s.ret.take (s.count - 1))
  else
    match s.ret with
    | [] => .error .indexExceedsBounds
    | e :: _ => .ok [e]

end Reader

end AtherosCsi
