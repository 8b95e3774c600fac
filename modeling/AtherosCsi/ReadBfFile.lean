import AtherosCsi.ReadBfee

/-! `matlab/read_bf_file.m`, the reader of a file of beamforming reports. The model starts with the file open
    and rewound, so a file is its bytes. Each record has a length of two bytes, the most significant one
    first, and a code; records with another code than that of a report are passed over. -/

namespace AtherosCsi
open MatArray Loop

/-- The errors that end the function, in MATLAB or in `read_bfee`. -/
inductive BfError where
  | invalidSize
  | invalidIndex
  | indexExceedsBounds
  | sizeMismatch
  | mex (e : MexError)
  deriving DecidableEq, Repr

/-- The ways out of the loop: its condition, the `return` where a record is not whole, an error, and a report
    that `read_bfee` reads behind the end of. -/
inductive BfExit where
  | endOfFile
  | shortRecord
  | failed (e : BfError)
  | outOfBounds
  deriving DecidableEq, Repr

/-- `triangle(nrx)` -/
def triangle (nrx : ℕ) : Except BfError ℕ :=
  match nrx with
  | 0 => .error .invalidIndex
  | 1 => .ok 1
  | 2 => .ok 3
  | 3 => .ok 6
  | _ => .error .indexExceedsBounds

/-- `csi(:,perm(1:Nrx),:) = csi(:,1:Nrx,:)` -/
def permuted (r : Bfee) : Option Bfee := do
  let nrx := r.nrx.toNat
  let csi ← r.csi.setCols? (r.perm.take nrx) (← r.csi.firstCols? nrx)
  return { r with csi }

/-- A report as it stays in its cell, and whether its permutation is broken. -/
def placed (r : Bfee) : Except BfError (Bfee × Bool) := do
  if r.nrx = 1 then return (r, false)
  else if r.perm.sum ≠ (← triangle r.nrx.toNat) then return (r, true)
  else
    match permuted r with
    | some r => return (r, false)
    | none => throw .sizeMismatch

/-- `WARN ONCE`: what the function prints at the first broken permutation. -/
structure BfWarning where
  nrx : ℕ
  perm : List ℕ
  deriving DecidableEq, Repr

structure BfState where
  pos : ℕ
  cur : ℕ
  count : ℕ
  brokenPerm : Bool
  ret : List (Option Bfee)
  output : List BfWarning

/-- `fseek(f, offset, 'cof')`, which does nothing where it would leave the file. -/
def fseek (len pos : ℕ) (offset : ℤ) : ℕ := if 0 ≤ pos + offset ∧ pos + offset ≤ len then (pos + offset).toNat else pos

/-- A report is read: it goes into the next cell. -/
def BfState.store (s : BfState) (r : Bfee) (broken : Bool) : BfState :=
  let warns := broken && !s.brokenPerm
  { s with
    count := s.count + 1
    brokenPerm := s.brokenPerm || broken
    ret := cellSet s.ret s.count r
    output := if warns then s.output ++ [⟨r.nrx.toNat, r.perm⟩] else s.output }

/-- One round of the loop. -/
def bfStep (file : List UInt8) (s : BfState) : Except BfExit BfState :=
  if s.cur + 3 < file.length then
    match file.drop s.pos with
    | hi :: lo :: code :: rest =>
      let fieldLen := 256 * hi.toNat + lo.toNat
      if code = 187 then
        if fieldLen = 0 then .error (.failed .invalidSize)
        else
          let bytes := rest.take (fieldLen - 1)
          if bytes.length ≠ fieldLen - 1 then .error .shortRecord
          else
            match readBfee bytes with
            | none => .error .outOfBounds
            | some (.error e) => .error (.failed (.mex e))
            | some (.ok r) =>
              match placed r with
              | .error e => .error (.failed e)
              | .ok (r, broken) =>
                .ok ({ s with pos := s.pos + 3 + (fieldLen - 1), cur := s.cur + 3 + (fieldLen - 1) }.store r broken)
      else .ok { s with pos := fseek file.length (s.pos + 3) (fieldLen - 1), cur := s.cur + 3 + fieldLen - 1 }
    | _ => .error (.failed .invalidSize)
  else .error .endOfFile

theorem bfStep_cur {file : List UInt8} {s t : BfState} (h : bfStep file s = .ok t) :
    s.cur + 3 < file.length ∧ s.cur + 2 ≤ t.cur := by
  unfold bfStep at h
  split at h
  · rename_i hcur
    refine ⟨hcur, ?_⟩
    split at h
    · simp only at h
      split at h
      · split at h
        · cases h
        · split at h
          · cases h
          · split at h
            · cases h
            · cases h
            · split at h
              · cases h
              · cases h
                simp only [BfState.store]
                omega
      · cases h
        simp only
        omega
    · cases h
  · cases h

theorem bfStep_decreases (file : List UInt8) (s t : BfState) (h : bfStep file s = .ok t) :
    file.length - t.cur < file.length - s.cur := by
  have := bfStep_cur h
  omega

def bfLoop (file : List UInt8) : BfState → BfState × BfExit :=
  loopUntil (bfStep file) (fun s => file.length - s.cur) (bfStep_decreases file)

/-- The state before the loop: `cell(ceil(len/95),1)` and nothing read. -/
def bfStart (file : List UInt8) : BfState := ⟨0, 0, 0, false, List.replicate ((file.length + 94) / 95) none, []⟩

/-- The cells that the function returns, `none` for one that was never assigned. A record that is not whole
    keeps it from cutting them to those it has filled. -/
def readBfFile (file : List UInt8) : Option (Except BfError (List (Option Bfee))) :=
  match bfLoop file (bfStart file) with
  | (s, .endOfFile) => some (.ok (s.ret.take s.count))
  | (s, .shortRecord) => some (.ok s.ret)
  | (_, .failed e) => some (.error e)
  | (_, .outOfBounds) => none

/-! ## Files -/

/-- A record of a file: a report of one to three receive antennas, with any bytes behind it, or something else. -/
inductive BfRecord where
  | report (x : Report) (behind : List UInt8) (hrx : 1 ≤ x.nrx.toNat ∧ x.nrx.toNat ≤ 3)
      (hlen : (x.bytes ++ behind).length + 1 < 2 ^ 16)
  | other (code : UInt8) (body : List UInt8) (hcode : code ≠ 187) (hlen : body.length + 1 < 2 ^ 16)

namespace BfRecord

def code : BfRecord → UInt8
  | .report .. => 187
  | .other code .. => code

def body : BfRecord → List UInt8
  | .report x behind .. => x.bytes ++ behind
  | .other _ body .. => body

def bytes (r : BfRecord) : List UInt8 :=
  UInt8.ofNat ((r.body.length + 1) / 256) :: UInt8.ofNat (r.body.length + 1) :: r.code :: r.body

/-- The report, as it stays in its cell, and whether its permutation is broken. -/
def found : BfRecord → List (Bfee × Bool)
  | .report x .. => (placed x.bfee).toOption.toList
  | .other .. => []

def isReport : BfRecord → Bool
  | .report .. => true
  | .other .. => false

end BfRecord

end AtherosCsi
