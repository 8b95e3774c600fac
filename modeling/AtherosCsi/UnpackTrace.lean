import AtherosCsi.ReadCsi

/-! The unpackers with a record of what they do. A traced run computes what the plain one computes; it
    also notes each index at which it reads, and its variables each time it has changed them. Forgetting
    the record gives the plain run. -/

namespace AtherosCsi
open Loop

/-- The variables of the unpacker at some moment, the indices that it has read by then, in order, and the
    number of parts that it has shifted out. -/
structure Snapshot (w : ℕ) where
  reads : List ℕ
  parts : ℕ
  q : Reservoir w

/-- The present moment of a traced run, and those at which its variables had changed. -/
structure Traced (w : ℕ) extends Snapshot w where
  snapshots : List (Snapshot w)

/-- `csi_addr[i]`, noted in `reads`. -/
def look (mem : ℕ → Option UInt8) (i : ℕ) (reads : List ℕ) : Option (UInt8 × List ℕ) := do
  return (← mem i, reads ++ [i])

def fetchTraced (mem : ℕ → Option UInt8) (idx : UInt32) (reads : List ℕ) : Option ((UInt32 × UInt32) × List ℕ) := do
  let (lo, reads) ← look mem idx.toNat reads
  let (hi, reads) ← look mem (idx + 1).toNat reads
  return ((lo.toUInt32 + (hi.toUInt32 <<< 8), idx + 1 + 1), reads)

theorem fetchTraced_eq (mem : ℕ → Option UInt8) (idx : UInt32) (reads : List ℕ) :
    fetchTraced mem idx reads = (fetch mem idx).map fun x => (x, reads ++ [idx.toNat, (idx + 1).toNat]) := by
  unfold fetchTraced fetch look
  cases mem idx.toNat with
  | none => rfl
  | some lo =>
    cases mem (idx + 1).toNat with
    | none => rfl
    | some hi => simp

namespace Traced
variable {w : ℕ}

def note (s : Snapshot w) (snapshots : List (Snapshot w)) : Traced w := ⟨s, snapshots ++ [s]⟩

def start (mem : ℕ → Option UInt8) : Option (Traced w) := do
  let ((hData, idx), reads) ← fetchTraced mem 0 []
  return note ⟨reads, 0, ⟨idx, hData &&& (((1 : UInt32) <<< 16) - 1), 16⟩⟩ []

def refill (signed : Bool) (mem : ℕ → Option UInt8) (t : Traced w) : Option (Traced w) :=
  if promote signed t.q.bitsLeft - 10 < 0 then do
    let ((hData, idx), reads) ← fetchTraced mem t.q.idx t.reads
    let currentData := t.q.currentData + (hData <<< (promote signed t.q.bitsLeft).toNat.toUInt32)
    return note ⟨reads, t.parts, ⟨idx, currentData, t.q.bitsLeft + 16⟩⟩ t.snapshots
  else some t

def drop (t : Traced w) : Traced w := note ⟨t.reads, t.parts + 1, t.q.drop⟩ t.snapshots

theorem start_eq (mem : ℕ → Option UInt8) :
    start (w := w) mem = (Reservoir.start mem).map fun q => note ⟨[0, 1], 0, q⟩ [] := by
  rw [start, Reservoir.start, fetchTraced_eq]
  cases fetch mem 0 with
  | none => rfl
  | some x => rfl

theorem refill_eq (signed : Bool) (mem : ℕ → Option UInt8) (t : Traced w) :
    t.refill signed mem = (t.q.refill signed mem).map fun q =>
      if promote signed t.q.bitsLeft - 10 < 0 then
        note ⟨t.reads ++ [t.q.idx.toNat, (t.q.idx + 1).toNat], t.parts, q⟩ t.snapshots
      else t := by
  rw [refill, Reservoir.refill, fetchTraced_eq]
  split
  · cases fetch mem t.q.idx with
    | none => rfl
    | some x => rfl
  · rfl

theorem map_refill (signed : Bool) (mem : ℕ → Option UInt8) (t : Traced w) :
    (t.refill signed mem).map (·.q) = t.q.refill signed mem := by
  rw [refill_eq, Option.map_map]
  by_cases hmore : promote signed t.q.bitsLeft - 10 < 0
  · simp only [Function.comp_def, hmore, if_true, note, Option.map_id']
  · simp only [Function.comp_def, hmore, if_false, Reservoir.refill, Option.map_some]

end Traced

/-! ### The traced loops -/

section Unpack
variable {σ : Type} {w : ℕ}

def unpackEntryTraced (signed : Bool) (mem : ℕ → Option UInt8)
    (setImag setReal : ℕ → ℕ → ℕ → Int32 → σ → Option σ) (k c r : BitVec w) (s : Traced w × σ) :
    Option (Traced w × σ) := do
  let t ← s.1.refill signed mem
  let x ← setImag r.toNat c.toNat k.toNat t.q.value s.2
  let t ← t.drop.refill signed mem
  let x ← setReal r.toNat c.toNat k.toNat t.q.value x
  return (t.drop, x)

def unpackTraced (w : ℕ) (signed : Bool) (mem : ℕ → Option UInt8) (nr nc numTones : ℕ)
    (setImag setReal : ℕ → ℕ → ℕ → Int32 → σ → Option σ) (x : σ) : Option (Traced w × σ) := do
  let t ← Traced.start (w := w) mem
  forUp w 0 numTones (fun k => forUp w 0 nc fun c => forUp w 0 nr fun r =>
    unpackEntryTraced signed mem setImag setReal k c r) (t, x)

theorem map_unpackEntryTraced (signed : Bool) (mem : ℕ → Option UInt8)
    (setImag setReal : ℕ → ℕ → ℕ → Int32 → σ → Option σ) (k c r : BitVec w) (s : Traced w × σ) :
    (unpackEntryTraced signed mem setImag setReal k c r s).map (fun s => (s.1.q, s.2)) =
      unpackEntry signed mem setImag setReal k c r (s.1.q, s.2) := by
  obtain ⟨t, x⟩ := s
  simp only [unpackEntryTraced, unpackEntry, ← Traced.map_refill]
  cases ht : t.refill signed mem with
  | none => rfl
  | some t₁ =>
    simp only [Option.map_some, Option.bind_eq_bind, Option.bind_some]
    cases setImag r.toNat c.toNat k.toNat t₁.q.value x with
    | none => rfl
    | some y =>
      have hdrop : t₁.q.drop = t₁.drop.q := rfl
      simp only [Option.bind_some, hdrop, ← Traced.map_refill]
      cases t₁.drop.refill signed mem with
      | none => rfl
      | some t₂ =>
        simp only [Option.map_some, Option.bind_some]
        cases setReal r.toNat c.toNat k.toNat t₂.q.value y <;> rfl

/-- A traced run stores what the plain run stores. -/
theorem map_unpackTraced (signed : Bool) (mem : ℕ → Option UInt8) (nr nc numTones : ℕ)
    (setImag setReal : ℕ → ℕ → ℕ → Int32 → σ → Option σ) (x : σ) :
    (unpackTraced w signed mem nr nc numTones setImag setReal x).map Prod.snd =
      unpack w signed mem nr nc numTones setImag setReal x := by
  rw [unpackTraced, unpack, Traced.start_eq]
  cases Reservoir.start (w := w) mem with
  | none => rfl
  | some q =>
    simp only [Option.map_some, Option.bind_eq_bind, Option.bind_some]
    have hloops : (forUp w 0 numTones (fun k => forUp w 0 nc fun c => forUp w 0 nr fun r =>
          unpackEntryTraced signed mem setImag setReal k c r) (Traced.note ⟨[0, 1], 0, q⟩ [], x)).map
          (fun s => (s.1.q, s.2)) =
        forUp w 0 numTones (fun k => forUp w 0 nc fun c => forUp w 0 nr fun r =>
          unpackEntry signed mem setImag setReal k c r) (q, x) :=
      forUp_map (fun k s => forUp_map (fun c s => forUp_map
        (fun r s => map_unpackEntryTraced signed mem setImag setReal k c r s) s) s) _
    rw [← hloops]
    cases forUp w 0 numTones (fun k => forUp w 0 nc fun c => forUp w 0 nr fun r =>
      unpackEntryTraced signed mem setImag setReal k c r) (Traced.note ⟨[0, 1], 0, q⟩ [], x) <;> rfl

end Unpack

def fillCsiMatrixTraced (csiAddr : ℕ → Option UInt8) (nr nc numTones : ℕ) (csiMatrix : CsiMatrix) :
    Option (Traced 8 × CsiMatrix) :=
  unpackTraced 8 false csiAddr nr nc numTones
    (fun r c k imag m => m.modify? r c k fun z => { z with imag })
    (fun r c k real m => m.modify? r c k fun z => { z with real })
    csiMatrix

theorem map_fillCsiMatrixTraced (csiAddr : ℕ → Option UInt8) (nr nc numTones : ℕ) (csiMatrix : CsiMatrix) :
    (fillCsiMatrixTraced csiAddr nr nc numTones csiMatrix).map Prod.snd =
      fillCsiMatrix csiAddr nr nc numTones csiMatrix :=
  map_unpackTraced false csiAddr nr nc numTones _ _ csiMatrix

def mexFunctionTraced (localH : ℕ → Option UInt8) (nr nc numTones : ℕ) : Option (Traced 32 × MxArray) := do
  let zeros := List.replicate (nr * nc * numTones) 0
  let (t, s) ← unpackTraced 32 true localH nr nc numTones (fun _ _ _ imag s => MexState.putImag s imag)
    (fun _ _ _ real s => MexState.putReal s real) ⟨zeros, zeros, 0, 0⟩
  return (t, ⟨nr, nc, numTones, s.pr, s.pi⟩)

theorem map_mexFunctionTraced (localH : ℕ → Option UInt8) (nr nc numTones : ℕ) :
    (mexFunctionTraced localH nr nc numTones).map Prod.snd = mexFunction localH nr nc numTones := by
  rw [mexFunction, mexFunctionTraced, ← map_unpackTraced]
  cases unpackTraced 32 true localH nr nc numTones (fun _ _ _ imag s => MexState.putImag s imag)
    (fun _ _ _ real s => MexState.putReal s real)
    ⟨List.replicate (nr * nc * numTones) 0, List.replicate (nr * nc * numTones) 0, 0, 0⟩ <;> rfl

end AtherosCsi
