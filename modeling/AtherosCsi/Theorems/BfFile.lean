import AtherosCsi.ReadBfFile
import AtherosCsi.Theorems.Bfee

/-! Files of beamforming reports. The reader finds every report of a file that ends with a whole record, and of
    one that is cut off; there it returns empty cells as well where it meets a part of a report. The cells
    that it makes beforehand are enough as long as each report has an entry. -/

namespace AtherosCsi
open LittleEndian BitFields Loop MatArray

/-! ### The cells -/

/-- Some cells filled, of at least `n`. -/
def cellsOf (n : ℕ) (rs : List Bfee) : List (Option Bfee) := rs.map some ++ List.replicate (n - rs.length) none

theorem take_cellsOf (n : ℕ) (rs : List Bfee) : (cellsOf n rs).take rs.length = rs.map some :=
  List.take_left' (List.length_map _)

theorem cellSet_cellsOf (n : ℕ) (rs : List Bfee) (r : Bfee) : cellSet (cellsOf n rs) rs.length r = cellsOf n (rs ++ [r]) := by
  have hlen : (rs.map some).length = rs.length := List.length_map _
  unfold cellSet cellsOf
  rw [List.map_append, List.append_assoc, List.length_append, List.length_replicate, hlen, List.length_append]
  rcases Nat.lt_or_ge rs.length n with hlt | hge
  · obtain ⟨k, hk⟩ : ∃ k, n - rs.length = k + 1 := ⟨n - rs.length - 1, by omega⟩
    rw [if_pos (by omega), hk, List.set_append_right _ _ (by omega), hlen, Nat.sub_self, List.replicate_succ, List.set_cons_zero,
      List.length_singleton, show n - (rs.length + 1) = k by omega]
    simp
  · rw [if_neg (by omega), Nat.sub_eq_zero_of_le hge, List.length_singleton, Nat.sub_eq_zero_of_le (Nat.le_succ_of_le hge)]
    simp

def warningOf (r : Bfee) : BfWarning := ⟨r.nrx.toNat, r.perm⟩

/-- The reader has stored these reports, of which some have broken permutations. -/
structure Filled (n : ℕ) (found : List (Bfee × Bool)) (s : BfState) : Prop where
  count : s.count = found.length
  ret : s.ret = cellsOf n (found.map Prod.fst)
  brokenPerm : s.brokenPerm = found.any Prod.snd
  output : s.output = ((found.find? Prod.snd).map fun r => warningOf r.1).toList

theorem Filled.move {n : ℕ} {found : List (Bfee × Bool)} {s : BfState} (h : Filled n found s) (pos cur : ℕ) :
    Filled n found { s with pos, cur } := ⟨h.count, h.ret, h.brokenPerm, h.output⟩

theorem Filled.store {n : ℕ} {found : List (Bfee × Bool)} {s : BfState} (h : Filled n found s) (r : Bfee) (broken : Bool) :
    Filled n (found ++ [(r, broken)]) (s.store r broken) where
  count := by simp [BfState.store, h.count]
  ret := by
    have hset := cellSet_cellsOf n (found.map Prod.fst) r
    rw [List.length_map] at hset
    simp only [BfState.store, h.ret, h.count, hset, List.map_append, List.map_cons, List.map_nil]
  brokenPerm := by simp [BfState.store, h.brokenPerm]
  output := by
    rw [BfState.store, h.brokenPerm, h.output, List.find?_append]
    cases hfind : found.find? Prod.snd with
    | none =>
      have hany : found.any Prod.snd = false := by
        rw [List.any_eq_false]
        exact List.find?_eq_none.mp hfind
      cases broken <;> simp [hany, warningOf]
    | some x =>
      have hany : found.any Prod.snd = true := List.any_eq_true.mpr ⟨x, List.mem_of_find?_eq_some hfind, List.find?_some hfind⟩
      simp [hany]

theorem filled_start (file : List UInt8) : Filled ((file.length + 94) / 95) [] (bfStart file) := ⟨rfl, by simp [cellsOf, bfStart], rfl, rfl⟩

/-! ### One report -/

theorem permuted_eq_some {r r' : Bfee} (h : permuted r = some r') : r'.nrx = r.nrx ∧ r'.ntx = r.ntx ∧ r'.perm = r.perm := by
  simp only [permuted, Option.bind_eq_bind, Option.bind_eq_some_iff] at h
  obtain ⟨_, -, _, -, h⟩ := h
  cases h
  exact ⟨rfl, rfl, rfl⟩

theorem placed_of_one {r : Bfee} (h : r.nrx = 1) : placed r = .ok (r, false) := by
  rw [placed, if_pos h]
  rfl

theorem placed_of_triangle {r : Bfee} (h : r.nrx ≠ 1) {sum : ℕ} (hsum : triangle r.nrx.toNat = .ok sum) :
    placed r = if r.perm.sum ≠ sum then .ok (r, true)
      else match permuted r with
        | some r => .ok (r, false)
        | none => .error .sizeMismatch := by
  rw [placed, if_neg h, hsum]
  rfl

theorem placed_eq_ok {r r' : Bfee} {broken : Bool} (h : placed r = .ok (r', broken)) :
    r'.nrx = r.nrx ∧ r'.ntx = r.ntx ∧ r'.perm = r.perm := by
  rcases eq_or_ne r.nrx 1 with hone | hone
  · cases (placed_of_one hone).symm.trans h
    exact ⟨rfl, rfl, rfl⟩
  · cases hsum : triangle r.nrx.toNat with
    | error e =>
      rw [placed, if_neg hone, hsum] at h
      cases h
    | ok sum =>
      rw [placed_of_triangle hone hsum] at h
      split at h
      · cases h
        exact ⟨rfl, rfl, rfl⟩
      · split at h
        · rename_i hperm
          cases h
          exact permuted_eq_some hperm
        · cases h

theorem mem_permOf {antennaSel : UInt8} {c : ℕ} (hc : c ∈ permOf antennaSel) : 1 ≤ c ∧ c ≤ 4 := by
  have hand : ∀ b : UInt8, (b &&& 3).toNat ≤ 3 := fun b => by
    rw [UInt8.toNat_and]
    exact Nat.and_le_right
  have h₀ := hand antennaSel
  have h₁ := hand (antennaSel >>> 2)
  have h₂ := hand (antennaSel >>> 4)
  simp only [permOf, List.mem_cons, List.not_mem_nil, or_false] at hc
  omega

namespace Report
variable (x : Report)

theorem permuted_bfee (hrx : x.nrx.toNat ≤ 3) :
    ∃ csi, x.bfee.csi.setCols? ((permOf x.antennaSel).take x.nrx.toNat) x.bfee.csi = some csi ∧
      permuted x.bfee = some { x.bfee with csi } := by
  have hcols : ((permOf x.antennaSel).take x.nrx.toNat).length = x.nrx.toNat := by
    rw [List.length_take, show (permOf x.antennaSel).length = 3 from rfl, Nat.min_eq_left hrx]
  have hpos : ∀ c ∈ (permOf x.antennaSel).take x.nrx.toNat, 1 ≤ c := fun c hc => (mem_permOf (List.mem_of_mem_take hc)).1
  have hfirst : x.bfee.csi.firstCols? x.nrx.toNat = some x.bfee.csi := dif_pos (Nat.le_refl _)
  obtain ⟨csi, hcsi⟩ : ∃ csi, x.bfee.csi.setCols? ((permOf x.antennaSel).take x.nrx.toNat) x.bfee.csi = some csi :=
    ⟨_, dif_pos ⟨hpos, rfl, hcols, rfl⟩⟩
  refine ⟨csi, hcsi, ?_⟩
  simp only [permuted, Option.bind_eq_bind, Option.bind_eq_some_iff]
  exact ⟨_, hfirst, _, hcsi, rfl⟩

/-- A report of up to three receive antennas has its place. -/
theorem exists_placed (hrx : 1 ≤ x.nrx.toNat ∧ x.nrx.toNat ≤ 3) : ∃ y broken, placed x.bfee = .ok (y, broken) := by
  rcases eq_or_ne x.nrx 1 with hone | hone
  · exact ⟨_, _, placed_of_one hone⟩
  · obtain ⟨sum, hsum⟩ : ∃ sum, triangle x.nrx.toNat = .ok sum := by
      obtain h | h | h : x.nrx.toNat = 1 ∨ x.nrx.toNat = 2 ∨ x.nrx.toNat = 3 := by omega
      all_goals exact ⟨_, by rw [h]; rfl⟩
    obtain ⟨csi, -, hperm⟩ := x.permuted_bfee hrx.2
    rw [placed_of_triangle (r := x.bfee) hone hsum, hperm]
    split
    · exact ⟨_, _, rfl⟩
    · exact ⟨_, _, rfl⟩

end Report

/-! ### One record -/

namespace BfRecord
variable (r : BfRecord)

theorem length_bytes : r.bytes.length = r.body.length + 3 := rfl

theorem fieldLen_eq : 256 * (UInt8.ofNat ((r.body.length + 1) / 256)).toNat + (UInt8.ofNat (r.body.length + 1)).toNat =
    r.body.length + 1 := by
  have hlen : r.body.length + 1 < 2 ^ 16 := by
    cases r with
    | report _ _ _ hlen => exact hlen
    | other _ _ _ hlen => exact hlen
  rw [UInt8.toNat_ofNat', UInt8.toNat_ofNat']
  omega

variable {r} {file ys : List UInt8} {n : ℕ} {found : List (Bfee × Bool)} {s : BfState}

/-- A round at the start of a whole record passes it, and stores it if it is a report. -/
theorem bfStep_bytes (hfile : file.drop s.pos = r.bytes ++ ys) (hpos : s.pos = s.cur) (hmore : 3 < (r.bytes ++ ys).length)
    (hs : Filled n found s) :
    ∃ t, bfStep file s = .ok t ∧ t.pos = s.pos + r.bytes.length ∧ t.cur = t.pos ∧ Filled n (found ++ r.found) t := by
  have hlen := congrArg List.length hfile
  rw [List.length_drop] at hlen
  have hcond : s.cur + 3 < file.length := by omega
  have hfield := r.fieldLen_eq
  have htake : (r.body ++ ys).take (r.body.length + 1 - 1) = r.body := by rw [Nat.add_sub_cancel, List.take_left]
  simp only [bfStep, if_pos hcond, hfile, bytes, List.cons_append, hfield, htake]
  cases r with
  | report x behind hrx hrlen =>
    obtain ⟨y, broken, hplaced⟩ := x.exists_placed hrx
    have hread : readBfee (body (.report x behind hrx hrlen)) = some (.ok x.bfee) := x.readBfee_bytes behind
    simp only [code, if_true, Nat.add_eq_zero_iff, one_ne_zero, and_false, if_false, Nat.add_sub_cancel, ne_eq, not_true_eq_false,
      hread, hplaced]
    refine ⟨_, rfl, ?_, ?_, ?_⟩
    · simp only [BfState.store, List.length_cons]
      omega
    · simp only [BfState.store]
      omega
    · simp only [BfRecord.found, hplaced]
      exact (hs.move _ _).store y broken
  | other code body hcode hrlen =>
    have hne : ¬ BfRecord.code (.other code body hcode hrlen) = 187 := hcode
    simp only [if_neg hne]
    have hbody : BfRecord.body (.other code body hcode hrlen) = body := rfl
    have hin : file.length = s.pos + 3 + body.length + ys.length := by
      simp only [bytes, hbody, List.cons_append, List.length_cons, List.length_append] at hlen hmore
      omega
    have hseek : fseek file.length (s.pos + 3) ((body.length + 1 : ℕ) - 1) = s.pos + 3 + body.length := by
      rw [fseek, if_pos (by omega)]
      omega
    refine ⟨_, rfl, ?_, ?_, ?_⟩
    · simp only [hbody, hseek, List.length_cons]
      omega
    · simp only [hbody, hseek]
      omega
    · simp only [BfRecord.found, List.append_nil]
      exact hs.move _ _

theorem bfStep_end (hcur : file.length ≤ s.cur + 3) : bfStep file s = .error .endOfFile := if_neg (by omega)

/-- At a part of a record the reader ends, there or one round later, and it does not get over a report. -/
theorem bfLoop_take {k : ℕ} (hfile : file.drop s.pos = r.bytes.take k) (hk : k < r.bytes.length) (hle : s.pos ≤ file.length)
    (hpos : s.pos = s.cur) (hs : Filled n found s) :
    ∃ t, bfLoop file s = (t, if r.isReport ∧ 3 < k then .shortRecord else .endOfFile) ∧ Filled n found t := by
  have hlen := congrArg List.length hfile
  rw [List.length_drop, List.length_take, Nat.min_eq_left hk.le] at hlen
  rcases Nat.lt_or_ge 3 k with hmore | hfew
  · obtain ⟨m, rfl⟩ : ∃ m, k = m + 3 := ⟨k - 3, by omega⟩
    have hcond : s.cur + 3 < file.length := by omega
    have hfield := r.fieldLen_eq
    have hm : m < r.body.length := by
      rw [r.length_bytes] at hk
      omega
    cases r with
    | report x behind hrx hrlen =>
      have hshort : ((body (.report x behind hrx hrlen)).take m).length ≠ (body (.report x behind hrx hrlen)).length := by
        rw [List.length_take]
        omega
      have htake : ((body (.report x behind hrx hrlen)).take m).take (body (.report x behind hrx hrlen)).length =
          (body (.report x behind hrx hrlen)).take m := List.take_of_length_le (by rw [List.length_take]; omega)
      refine ⟨s, loopUntil_of_error ?_, hs⟩
      simp only [bfStep, if_pos hcond, hfile, bytes, List.take_succ_cons, hfield, htake, code, if_true, Nat.add_eq_zero_iff,
        one_ne_zero, and_false, if_false, Nat.add_sub_cancel, ne_eq, hshort, not_false_eq_true, isReport, hmore, and_self]
    | other code body hcode hrlen =>
      have hne : ¬ BfRecord.code (.other code body hcode hrlen) = 187 := hcode
      have hnot : ¬ ((BfRecord.other code body hcode hrlen).isReport = true ∧ 3 < m + 3) := fun h => nomatch h.1
      obtain ⟨t, ht, hcur, hfill⟩ : ∃ t, bfStep file s = .ok t ∧ file.length ≤ t.cur + 3 ∧ Filled n found t := by
        refine ⟨_, ?_, ?_, hs.move (fseek file.length (s.pos + 3) ((body.length + 1 : ℕ) - 1)) (s.cur + 3 + (body.length + 1) - 1)⟩
        · simp only [bfStep, if_pos hcond, hfile, bytes, List.take_succ_cons, hfield, if_neg hne]
          rfl
        · have hbody : m < body.length := hm
          simp only
          omega
      rw [if_neg hnot]
      exact ⟨t, (loopUntil_of_ok ht).trans (loopUntil_of_error (bfStep_end hcur)), hfill⟩
  · rw [if_neg fun h => absurd h.2 (Nat.not_lt.mpr hfew)]
    exact ⟨s, loopUntil_of_error (bfStep_end (by omega)), hs⟩

/-- The reader passes all whole records, but for an empty one at the end of the file. -/
theorem bfLoop_bytes (rs : List BfRecord) (hfile : file.drop s.pos = rs.flatMap bytes ++ ys) (hle : s.pos ≤ file.length)
    (hpos : s.pos = s.cur) (hs : Filled n found s) :
    ∃ t, bfLoop file s = bfLoop file t ∧ Filled n (found ++ rs.flatMap BfRecord.found) t ∧ t.pos ≤ file.length ∧ t.pos = t.cur ∧
      (file.drop t.pos = ys ∨ ys = [] ∧ bfStep file t = .error .endOfFile) := by
  induction rs generalizing s found with
  | nil => exact ⟨s, rfl, by simpa using hs, hle, hpos, .inl hfile⟩
  | cons r rs ih =>
    rw [List.flatMap_cons, List.append_assoc] at hfile
    have hlen := congrArg List.length hfile
    rw [List.length_drop, List.length_append] at hlen
    rcases Nat.lt_or_ge 3 (r.bytes ++ (rs.flatMap bytes ++ ys)).length with hmore | hend
    · obtain ⟨t, ht, htpos, htcur, hfill⟩ := bfStep_bytes hfile hpos hmore hs
      have hrest : file.drop t.pos = rs.flatMap bytes ++ ys := by rw [htpos, ← List.drop_drop, hfile, List.drop_left]
      obtain ⟨u, hu, hrest⟩ := ih hrest (by omega) htcur.symm hfill
      refine ⟨u, (loopUntil_of_ok ht).trans hu, ?_⟩
      rwa [List.flatMap_cons, ← List.append_assoc]
    · -- Only an empty record, of something else than a report, ends here.
      rw [List.length_append, r.length_bytes] at hend
      have hys : rs.flatMap bytes ++ ys = [] := List.eq_nil_of_length_eq_zero (by omega)
      have hnil : rs = [] := by
        cases rs with
        | nil => rfl
        | cons r' rs => cases hys
      have hfound : r.found = [] := by
        cases r with
        | report x behind =>
          have hbody : (body (.report x behind ‹_› ‹_›)).length = x.bytes.length + behind.length := List.length_append
          have := x.length_bytes
          omega
        | other => rfl
      subst hnil
      have hstop : bfStep file s = .error .endOfFile := bfStep_end (by rw [r.length_bytes] at hlen; omega)
      exact ⟨s, rfl, by simpa [hfound] using hs, hle, hpos, .inr ⟨hys, hstop⟩⟩

end BfRecord

theorem bfLoop_cut (rs : List BfRecord) (r : BfRecord) (k : ℕ) (hk : k < r.bytes.length) {file : List UInt8}
    (hfile : file = rs.flatMap BfRecord.bytes ++ r.bytes.take k) :
    ∃ s, bfLoop file (bfStart file) = (s, if r.isReport ∧ 3 < k then .shortRecord else .endOfFile) ∧
      Filled ((file.length + 94) / 95) (rs.flatMap BfRecord.found) s := by
  obtain ⟨t, ht, hfill, hle, hpos, hrest⟩ := BfRecord.bfLoop_bytes (s := bfStart file) rs hfile (Nat.zero_le _) rfl
    (filled_start file)
  rw [List.nil_append] at hfill
  rw [ht]
  rcases hrest with hrest | ⟨hnil, hstop⟩
  · exact BfRecord.bfLoop_take hrest hk hle hpos hfill
  · have hzero : ¬ (r.isReport = true ∧ 3 < k) := by
      have hlen := congrArg List.length hnil
      rw [List.length_take, Nat.min_eq_left hk.le, List.length_nil] at hlen
      omega
    rw [if_neg hzero]
    exact ⟨t, loopUntil_of_error hstop, hfill⟩

def oneRecord : BfRecord := .report oneReport [] (by decide) (by decide)

/-- What a round does that does not end the loop. -/
theorem bfStep_eq_ok {file : List UInt8} {s t : BfState} (h : bfStep file s = .ok t) :
    ∃ (hi lo code : UInt8) (rest : List UInt8), s.cur + 3 < file.length ∧ file.drop s.pos = hi :: lo :: code :: rest ∧
      (t = { s with pos := fseek file.length (s.pos + 3) ((256 * hi.toNat + lo.toNat : ℕ) - 1),
                    cur := s.cur + 3 + (256 * hi.toNat + lo.toNat) - 1 } ∨
        ∃ m r r' broken, (rest.take m).length = m ∧ readBfee (rest.take m) = some (.ok r) ∧ placed r = .ok (r', broken) ∧
          t = { s with pos := s.pos + 3 + m, cur := s.cur + 3 + m }.store r' broken) := by
  unfold bfStep at h
  split at h
  · rename_i hcur
    split at h
    · rename_i hi lo code rest hfile
      refine ⟨hi, lo, code, rest, hcur, hfile, ?_⟩
      simp only at h
      split at h
      · split at h
        · cases h
        · split at h
          · cases h
          · rename_i hwhole
            split at h
            · cases h
            · cases h
            · rename_i r hread
              split at h
              · cases h
              · rename_i r' broken hplaced
                cases h
                exact .inr ⟨_, r, r', broken, not_not.mp hwhole, hread, hplaced, rfl⟩
      · cases h
        exact .inl rfl
    · cases h
  · cases h

def Bfee.pairs (r : Bfee) : ℕ := r.nrx.toNat * r.ntx.toNat

/-- Each stored report has taken its place in the file, which the reader has passed. -/
structure Passed (file : List UInt8) (found : List (Bfee × Bool)) (s : BfState) : Prop where
  filled : Filled ((file.length + 94) / 95) found s
  pos : s.pos = s.cur ∨ file.length ≤ s.cur + 3
  pos_le : s.pos ≤ file.length
  room : 23 * found.length ≤ s.pos
  roomPairs : (∀ r ∈ found, 0 < r.1.pairs) → 95 * found.length ≤ s.pos

theorem length_of_readBfee {bytes : List UInt8} {r : Bfee} (h : readBfee bytes = some (.ok r)) :
    20 ≤ bytes.length ∧ (0 < r.pairs → 92 ≤ bytes.length) := by
  obtain ⟨hlong, hlen, hroom, hr⟩ := readBfee_eq_ok_iff.mp h
  refine ⟨hlong, fun hpos => ?_⟩
  have hpairs : pairsAt (byteAt bytes) = r.pairs := by
    rw [hr]
    rfl
  have := hroom (hpairs ▸ hpos)
  omega

theorem Passed.step {file : List UInt8} {found : List (Bfee × Bool)} {s t : BfState} (hs : Passed file found s)
    (h : bfStep file s = .ok t) : ∃ found', Passed file found' t := by
  obtain ⟨hi, lo, code, rest, hcur, hfile, ht⟩ := bfStep_eq_ok h
  have hsame : s.pos = s.cur := hs.pos.resolve_right (by omega)
  have hlen := congrArg List.length hfile
  simp only [List.length_drop, List.length_cons] at hlen
  have hroom := hs.room
  have hroomPairs := hs.roomPairs
  rcases ht with rfl | ⟨m, r, r', broken, hm, hread, hplaced, rfl⟩
  · refine ⟨found, hs.filled.move _ _, ?_, ?_, ?_, fun hpairs => ?_⟩
    all_goals simp only [fseek]
    · split <;> omega
    · split <;> omega
    · split <;> omega
    · have := hroomPairs hpairs
      split <;> omega
  · obtain ⟨hlong, hlongPairs⟩ := length_of_readBfee hread
    obtain ⟨hnrx, hntx, -⟩ := placed_eq_ok hplaced
    have hpairs : r'.pairs = r.pairs := by rw [Bfee.pairs, hnrx, hntx, Bfee.pairs]
    rw [hm] at hlong hlongPairs
    have hrest : m ≤ rest.length := hm ▸ List.length_take_le' m rest
    refine ⟨found ++ [(r', broken)], (hs.filled.move _ _).store r' broken, .inl ?_, ?_, ?_, fun hall => ?_⟩
    all_goals simp only [BfState.store, List.length_append, List.length_singleton]
    · omega
    · omega
    · omega
    · have hbefore := hroomPairs fun x hx => hall x (List.mem_append_left _ hx)
      have hlast := hlongPairs (hpairs ▸ hall (r', broken) (List.mem_append_right _ (List.mem_singleton_self _)))
      omega

/-- However a file looks, the cells that it gets beforehand are enough where each report has an entry, since
    such a report takes 95 bytes at least; without entries it may take as few as 23. -/
theorem readBfFile_cells (file : List UInt8) (ret : List (Option Bfee)) (h : readBfFile file = some (.ok ret)) :
    ∃ rs : List Bfee, (ret = rs.map some ∨ ret = cellsOf ((file.length + 94) / 95) rs) ∧ 23 * rs.length ≤ file.length ∧
      ((∀ r ∈ rs, 0 < r.pairs) → 95 * rs.length ≤ file.length) := by
  have hstart : Passed file [] (bfStart file) := ⟨filled_start file, .inl rfl, Nat.zero_le _, Nat.zero_le _, fun _ => Nat.zero_le _⟩
  obtain ⟨found, hpassed⟩ : ∃ found, Passed file found (bfLoop file (bfStart file)).1 :=
    (loopUntil_rule (fun s => ∃ found, Passed file found s) (fun s t ⟨_, hs⟩ hstep => hs.step hstep) (bfStart file) ⟨[], hstart⟩).1
  have hcount : (bfLoop file (bfStart file)).1.count = (found.map Prod.fst).length := by rw [hpassed.filled.count, List.length_map]
  refine ⟨found.map Prod.fst, ?_, ?_, fun hall => ?_⟩
  · unfold readBfFile at h
    split at h
    · rename_i s hs
      rw [hs] at hpassed hcount
      rw [← Except.ok.inj (Option.some.inj h), hpassed.filled.ret, hcount, take_cellsOf]
      exact .inl rfl
    · rename_i s hs
      rw [hs] at hpassed
      exact .inr (by rw [← Except.ok.inj (Option.some.inj h), hpassed.filled.ret])
    · cases h
    · cases h
  · rw [List.length_map]
    exact hpassed.room.trans hpassed.pos_le
  · rw [List.length_map]
    exact (hpassed.roomPairs fun r hr => hall r.1 (List.mem_map_of_mem hr)).trans hpassed.pos_le

theorem readBfFile_records (rs : List BfRecord) :
    readBfFile (rs.flatMap BfRecord.bytes) = some (.ok ((rs.flatMap BfRecord.found).map fun r => some r.1)) := by
  obtain ⟨s, hs, hfill⟩ := bfLoop_cut rs oneRecord 0 (by decide) (by rw [List.take_zero, List.append_nil])
  rw [if_neg (by decide)] at hs
  have hcount : s.count = ((rs.flatMap BfRecord.found).map Prod.fst).length := by rw [hfill.count, List.length_map]
  unfold readBfFile
  rw [hs]
  simp only [hfill.ret, hcount, take_cellsOf, List.map_map, Function.comp_def]

/-- No transmit antenna, and so no entry. -/
def bareReport : Report := { oneReport with ntx := 0, fits := by decide }

def bareRecord : BfRecord := .report bareReport [] (by decide) (by decide)

/-- Reports without entries need more cells than there are beforehand. -/
theorem readBfFile_bare (n : ℕ) : ((List.replicate n bareRecord).flatMap BfRecord.bytes).length = 35 * n ∧
    readBfFile ((List.replicate n bareRecord).flatMap BfRecord.bytes) = some (.ok (List.replicate n (some bareReport.bfee))) := by
  constructor
  · have hone : bareRecord.bytes.length = 35 := by decide
    induction n with
    | zero => rfl
    | succ n ih => rw [List.replicate_succ, List.flatMap_cons, List.length_append, ih, hone, Nat.mul_succ, Nat.add_comm]
  · have hfound : bareRecord.found = [(bareReport.bfee, false)] := rfl
    rw [readBfFile_records, List.flatMap_replicate, hfound, List.flatten_replicate_singleton, List.map_replicate]

/-- One report with an entry takes 95 bytes. Five reports without entries take 175 and five cells, where two
    are made beforehand. -/
theorem readBfFile_cells_one : (oneRecord.bytes.length = 95 ∧ readBfFile oneRecord.bytes = some (.ok [some oneReport.bfee]) ∧
    ∃ rs : List Bfee, ([some oneReport.bfee] = rs.map some ∨ [some oneReport.bfee] = cellsOf 1 rs) ∧ 23 * rs.length ≤ 95 ∧
      ((∀ r ∈ rs, 0 < r.pairs) → 95 * rs.length ≤ 95)) ∧
    (((List.replicate 5 bareRecord).flatMap BfRecord.bytes).length + 94) / 95 = 2 ∧
    readBfFile ((List.replicate 5 bareRecord).flatMap BfRecord.bytes) = some (.ok (List.replicate 5 (some bareReport.bfee))) := by
  have hread : readBfFile oneRecord.bytes = some (.ok [some oneReport.bfee]) := by
    have hone := readBfFile_records [oneRecord]
    rw [List.flatMap_singleton] at hone
    exact hone
  obtain ⟨hlen, hbare⟩ := readBfFile_bare 5
  exact ⟨⟨by decide, hread, readBfFile_cells _ _ hread⟩, by rw [hlen], hbare⟩

end AtherosCsi
