import AtherosCsi.Theorems.Queries

/-! The text for `csi_data` as an encoding of the packet. It is a list of tuples, one for each subcarrier and
    antenna, and reading the numbers back gives the time stamp, the id of the status and the entries of
    the matrix, so different packets have different texts. -/

namespace AtherosCsi
open Sql

/-! ### Tuples -/

def tupleText (id : ℤ) (st : CsiStruct) (m : CsiMatrix) (p : ℕ × ℕ) : List Char := ' ' :: rowText (dataTexts id st m p)

theorem flatMap_comma_append {α : Type} (f : α → List Char) (init : List α) (last : α) :
    (init.flatMap fun x => f x ++ [',']) ++ f last = [','].intercalate ((init ++ [last]).map f) := by
  induction init with
  | nil => simp
  | cons x init ih =>
    have hne : (init ++ [last]).map f ≠ [] := by simp
    rw [List.flatMap_cons, List.append_assoc, ih, List.cons_append, List.map_cons, List.intercalate_cons_of_ne_nil hne]

/-- The rows with their separators are tuples with commas between them and a semicolon at the end. -/
theorem rowPieces_eq (id : ℤ) {st : CsiStruct} (m : CsiMatrix) (hnr : 1 ≤ st.nr.toNat) (hnt : 1 ≤ st.numTones.toNat) :
    (positions st.nr.toNat st.numTones.toNat).flatMap (rowPiece id st m) =
      [','].intercalate ((positions st.nr.toNat st.numTones.toNat).map (tupleText id st m)) ++ [';'] := by
  obtain ⟨init, hpos, hinit⟩ := positions_eq hnr hnt
  have hlast : st.numTones.toNat - 1 + 1 = st.numTones.toNat ∧ st.nr.toNat - 1 + 1 = st.nr.toNat := by omega
  have hcommas : init.flatMap (rowPiece id st m) = init.flatMap fun p => tupleText id st m p ++ [','] :=
    List.flatMap_congr fun p hp => by
      rw [rowPiece, if_neg (hinit p hp)]
      rfl
  rw [hpos, List.flatMap_append, List.flatMap_singleton, rowPiece, if_pos hlast, hcommas, ← flatMap_comma_append,
    List.append_assoc]
  rfl

/-! ### Reading the tuples back -/

def readLiteral : Value → Option ℤ
  | .default => none
  | .literal cs => parseInt cs

/-- The numbers of a tuple behind its leading DEFAULT. -/
def readTuple : List Value → Option (List ℤ)
  | .default :: vals => vals.mapM readLiteral
  | _ => none

def readTuples (text : List Char) : Option (List (List ℤ)) :=
  match parseStatement text with
  | some (.insertData rows) => rows.mapM readTuple
  | _ => none

def dataNumbers (id : ℤ) (st : CsiStruct) (m : CsiMatrix) (p : ℕ × ℕ) : List ℤ :=
  [(st.tstamp.toNat : ℤ), id, (p.2 : ℤ) + 1, (p.1 : ℤ) + 1] ++
    (List.range st.nc.toNat).flatMap fun c => [(cellAt m p.2 c p.1).real.toInt, (cellAt m p.2 c p.1).imag.toInt, 0]

theorem dataTexts_eq (id : ℤ) (st : CsiStruct) (m : CsiMatrix) (p : ℕ × ℕ) :
    dataTexts id st m p = (dataNumbers id st m p).map decimal := by
  simp only [dataTexts, dataNumbers, List.map_append, List.map_cons, List.map_nil, List.map_flatMap]

theorem readTuple_rowValues (id : ℤ) (st : CsiStruct) (m : CsiMatrix) (p : ℕ × ℕ) :
    readTuple (rowValues (dataTexts id st m p)) = some (dataNumbers id st m p) := by
  have hread : ∀ n : ℤ, readLiteral ((Value.literal ∘ decimal) n) = some n := parseInt_decimal
  rw [dataTexts_eq, rowValues, readTuple, List.map_map, Loop.mapM_map_eq_some fun n _ => hread n, List.map_id']

theorem readTuples_eq (id : ℤ) (st : CsiStruct) (m : CsiMatrix) (hnr : 1 ≤ st.nr.toNat) (hnt : 1 ≤ st.numTones.toNat) :
    readTuples ("INSERT INTO csi_data VALUES".toList ++
      (positions st.nr.toNat st.numTones.toNat).flatMap (rowPiece id st m)) =
        some ((positions st.nr.toNat st.numTones.toNat).map (dataNumbers id st m)) := by
  rw [readTuples, parseStatement_data id st m hnr hnt]
  exact Loop.mapM_map_eq_some fun p _ => readTuple_rowValues id st m p

/-! ### Faithfulness -/

theorem getElem?_cells (z : ℕ → Complex) {n c : ℕ} (hc : c < n) {j : ℕ} (hj : j < 3) :
    ((List.range n).flatMap fun c => [(z c).real.toInt, (z c).imag.toInt, 0])[c * 3 + j]? =
      [(z c).real.toInt, (z c).imag.toInt, (0 : ℤ)][j]? :=
  Loop.getElem?_flatMap_range (f := fun c => [(z c).real.toInt, (z c).imag.toInt, 0]) (fun _ => rfl) hc hj

theorem complex_eq {z z' : Complex} (hreal : z.real = z'.real) (himag : z.imag = z'.imag) : z = z' := by
  obtain ⟨re, im⟩ := z
  obtain ⟨re', im'⟩ := z'
  rw [Complex.mk.injEq]
  exact ⟨hreal, himag⟩

/-- The numbers of one tuple determine the time stamp, the id and the cells. -/
theorem dataNumbers_inj {id id' : ℤ} {st st' : CsiStruct} {m m' : CsiMatrix} {p : ℕ × ℕ} (hnc : st'.nc = st.nc)
    (h : dataNumbers id' st' m' p = dataNumbers id st m p) :
    st'.tstamp = st.tstamp ∧ id' = id ∧ ∀ c < st.nc.toNat, cellAt m' p.2 c p.1 = cellAt m p.2 c p.1 := by
  simp only [dataNumbers, hnc, List.cons_append, List.nil_append, List.cons.injEq, Int.natCast_inj] at h
  obtain ⟨hts, hid, -, -, hcells⟩ := h
  refine ⟨UInt64.toNat_inj.mp hts, hid, fun c hc => ?_⟩
  have hat : ∀ j < 3, [(cellAt m' p.2 c p.1).real.toInt, (cellAt m' p.2 c p.1).imag.toInt, (0 : ℤ)][j]? =
      [(cellAt m p.2 c p.1).real.toInt, (cellAt m p.2 c p.1).imag.toInt, (0 : ℤ)][j]? := fun j hj => by
    rw [← getElem?_cells (fun c => cellAt m' p.2 c p.1) hc hj, ← getElem?_cells (fun c => cellAt m p.2 c p.1) hc hj, hcells]
  have hreal := Int32.toInt_inj.mp (Option.some.inj (hat 0 (by decide)))
  have himag := Int32.toInt_inj.mp (Option.some.inj (hat 1 (by decide)))
  exact complex_eq hreal himag

/-- `save_csi_matrix` sends a list of tuples from which the packet can be read back: for each subcarrier, and
    within it for each antenna, the time stamp, the id, the numbers of antenna and subcarrier, and real part,
    imaginary part and 0 for each transmit antenna. -/
theorem csiDataQuery_faithful (id : ℤ) (st : CsiStruct) (m : CsiMatrix) (hnr : 1 ≤ st.nr.toNat ∧ st.nr.toNat ≤ 3)
    (hnc : st.nc.toNat ≤ 3) (hnt : 1 ≤ st.numTones.toNat ∧ st.numTones.toNat ≤ 114) :
    ∃ text tuples, (∃ k, saveCsiMatrix true id st m = .call text k) ∧
      text = "INSERT INTO csi_data VALUES".toList ++ [','].intercalate tuples ++ [';'] ∧
      tuples.length = st.numTones.toNat * st.nr.toNat ∧
      (∀ t ∈ tuples, ∃ vals : List ℤ, t =
        ' ' :: '(' :: ("DEFAULT".toList ++ vals.flatMap (fun v => ',' :: quoted (decimal v)) ++ [')'])) ∧
      readTuples text = some ((List.range st.numTones.toNat).flatMap fun s : ℕ => (List.range st.nr.toNat).map fun a : ℕ =>
        [(st.tstamp.toNat : ℤ), id, (a : ℤ) + 1, (s : ℤ) + 1] ++
          (List.range st.nc.toNat).flatMap fun c => [(cellAt m a c s).real.toInt, (cellAt m a c s).imag.toInt, 0]) ∧
      ∀ id' st' m', st'.nr = st.nr → st'.nc = st.nc → st'.numTones = st.numTones →
        csiDataQuery id' st' m' = some text →
        st'.tstamp = st.tstamp ∧ id' = id ∧
          ∀ a c s, a < st.nr.toNat → c < st.nc.toNat → s < st.numTones.toNat → cellAt m' a c s = cellAt m a c s := by
  have hdims : DimsFit st.nr.toNat st.nc.toNat st.numTones.toNat := DimsFit.of_le ⟨hnr.2, hnc, hnt.2⟩
  have hquery := csiDataQuery_eq id st m hdims
  have hread := readTuples_eq id st m hnr.1 hnt.1
  have hcall : ∃ k, saveCsiMatrix true id st m = .call ("INSERT INTO csi_data VALUES".toList ++
      (positions st.nr.toNat st.numTones.toNat).flatMap (rowPiece id st m)) k := by
    rw [saveCsiMatrix, if_neg (by decide), hquery]
    exact ⟨_, rfl⟩
  refine ⟨_, (positions st.nr.toNat st.numTones.toNat).map (tupleText id st m), hcall, ?_, ?_, ?_, hread.trans ?_, ?_⟩
  · rw [rowPieces_eq id m hnr.1 hnt.1, List.append_assoc]
  · rw [List.length_map, length_positions]
  · intro t ht
    obtain ⟨p, -, rfl⟩ := List.mem_map.mp ht
    refine ⟨dataNumbers id st m p, ?_⟩
    rw [tupleText, rowText, dataTexts_eq, List.flatMap_map]
    simp only [String.reduceToList, defaultWord, List.append_assoc]
  · rw [positions, List.map_flatMap]
    simp only [List.map_map]
    rfl
  · intro id' st' m' hnr' hnc' hnt' hquery'
    have hread' := readTuples_eq id' st' m' (by rw [hnr']; exact hnr.1) (by rw [hnt']; exact hnt.1)
    rw [csiDataQuery_eq id' st' m' (by rw [hnr', hnc', hnt']; exact hdims), Option.some.injEq] at hquery'
    rw [hquery', hread, hnr', hnt', Option.some.injEq] at hread'
    have hnumbers : ∀ p ∈ positions st.nr.toNat st.numTones.toNat, dataNumbers id' st' m' p = dataNumbers id st m p :=
      fun p hp => (List.map_inj_left.mp hread' p hp).symm
    have hinj := fun a s (ha : a < st.nr.toNat) (hs : s < st.numTones.toNat) =>
      dataNumbers_inj hnc' (hnumbers (s, a) (mem_positions.mpr ⟨hs, ha⟩))
    obtain ⟨hts, hid, -⟩ := hinj 0 0 hnr.1 hnt.1
    exact ⟨hts, hid, fun a c s ha hc hs => (hinj a s ha hs).2.2 c hc⟩

theorem csiDataQuery_faithful_four : ∃ text k,
    saveCsiMatrix true 7 { CsiStruct.zero with nr := 2, nc := 1, numTones := 2 } CsiMatrix.zero = .call text k ∧
      readTuples text = some [[0, 7, 1, 1, 0, 0, 0], [0, 7, 2, 1, 0, 0, 0], [0, 7, 1, 2, 0, 0, 0], [0, 7, 2, 2, 0, 0, 0]] := by
  obtain ⟨text, tuples, ⟨k, hcall⟩, -, -, -, hread, -⟩ := csiDataQuery_faithful 7
    { CsiStruct.zero with nr := 2, nc := 1, numTones := 2 } CsiMatrix.zero (by decide) (by decide) (by decide)
  exact ⟨text, k, hcall, hread⟩

end AtherosCsi
