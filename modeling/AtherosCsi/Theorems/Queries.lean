import AtherosCsi.Persistence
import Mathlib.Tactic.FinCases
import Mathlib.Tactic.IntervalCases

/-! What the server makes of the texts that `csi_persistence.c` sends. The text for `csi_status` is one row;
    the text for `csi_data` is one row for each subcarrier and antenna, and no statement at all when there
    is no such pair. -/

namespace AtherosCsi
open Loop Sql

/-! ### The status -/

def statusTexts (st : CsiStruct) : List (List Char) :=
  [decimal st.tstamp.toNat, decimal st.channel.toNat, printF (if st.chanBW = 0 then 20 else 40), decimal st.rate.toNat,
    decimal st.nr.toNat, decimal st.nc.toNat, decimal st.numTones.toNat, decimal st.noise.toNat,
    decimal st.phyerr.toNat, decimal st.rssi.toNat, decimal st.rssi0.toNat, decimal st.rssi1.toNat,
    decimal st.rssi2.toNat, decimal st.payloadLen.toNat, decimal st.csiLen.toNat, decimal st.bufLen.toNat]

/-- The row of `csi_status` that belongs to a packet. -/
def statusCells (st : CsiStruct) : StatusColumn → Option Cell
  | .timestampMilli => some (.int st.tstamp.toNat)
  | .channel => some (.int st.channel.toNat)
  | .channelBw => some (.real (if st.chanBW = 0 then 20 else 40))
  | .rate => some (.int st.rate.toNat)
  | .numReceives => some (.int st.nr.toNat)
  | .numTransmitters => some (.int st.nc.toNat)
  | .numSubcarriers => some (.int st.numTones.toNat)
  | .noise => some (.int st.noise.toNat)
  | .phyErr => some (.int st.phyerr.toNat)
  | .fullRssi => some (.int st.rssi.toNat)
  | .rssi0 => some (.int st.rssi0.toNat)
  | .rssi1 => some (.int st.rssi1.toNat)
  | .rssi2 => some (.int st.rssi2.toNat)
  | .payloadLen => some (.int st.payloadLen.toNat)
  | .csiLen => some (.int st.csiLen.toNat)
  | .bufLen => some (.int st.bufLen.toNat)

theorem createCsiStatusInsertQuery_eq (st : CsiStruct) :
    createCsiStatusInsertQuery st = "INSERT INTO csi_status VALUES".toList ++ rowText (statusTexts st) := by
  unfold createCsiStatusInsertQuery rowText statusTexts
  simp only [String.reduceToList, quoted, defaultWord, List.flatMap_cons, List.flatMap_nil, List.append_assoc,
    List.cons_append, List.nil_append]

theorem quote_not_mem_statusTexts (st : CsiStruct) : ∀ v ∈ statusTexts st, '\'' ∉ v := by
  have hbw : '\'' ∉ printF (if st.chanBW = 0 then 20 else 40) := by
    rw [printF, List.mem_append, not_or]
    exact ⟨quote_not_mem_decimal _, by decide⟩
  intro v hv
  simp only [statusTexts, List.mem_cons, List.not_mem_nil, or_false] at hv
  rcases hv with rfl | rfl | rfl | rfl | rfl | rfl | rfl | rfl | rfl | rfl | rfl | rfl | rfl | rfl | rfl | rfl
  case inr.inr.inl => exact hbw
  all_goals exact quote_not_mem_decimal _

theorem lex_statusHead (rest : List Char) :
    lex ("INSERT INTO csi_status VALUES".toList ++ '(' :: rest) = (lex ('(' :: rest)).map (insertHead "csi_status" ++ ·) := by
  simp [lex, lexFrom, isWordChar, symbol, insertHead]
  rfl

theorem parseStatement_status (st : CsiStruct) :
    parseStatement (createCsiStatusInsertQuery st) = some (.insertStatus [rowValues (statusTexts st)]) := by
  have hlex : lex (createCsiStatusInsertQuery st) = some (insertHead "csi_status" ++ (rowTokens (statusTexts st) ++ [])) := by
    have hrow := lex_rowText (quote_not_mem_statusTexts st) []
    rw [List.append_nil] at hrow
    rw [createCsiStatusInsertQuery_eq, rowText, lex_statusHead, ← rowText, hrow]
    rfl
  have hparse := parseRows_rows (Or.inl rfl) (statusTexts st) [] []
  simp only [parseStatement, hlex, Option.bind_eq_bind, Option.bind_some]
  rw [List.take_left' (by rfl), List.drop_left' (by rfl), if_pos rfl]
  exact congrArg (Option.map Statement.insertStatus) hparse

theorem read_printF (bw : UInt8) :
    ColType.read .real (printF (if bw = 0 then 20 else 40)) = some (.real (if bw = 0 then 20 else 40)) := by
  split <;> decide +kernel

theorem read_int {n : ℤ} (h : -(2 ^ 31) ≤ n ∧ n < 2 ^ 31) : ColType.read .integer (decimal n) = some (.int n) :=
  readInt_decimal h

theorem read_byte (b : UInt8) : ColType.read .integer (decimal b.toNat) = some (.int b.toNat) :=
  read_int (by have := b.toNat_lt; omega)

theorem read_short (b : UInt16) : ColType.read .integer (decimal b.toNat) = some (.int b.toNat) :=
  read_int (by have := b.toNat_lt; omega)

theorem read_tstamp (t : UInt64) :
    ColType.read .bigint (decimal t.toNat) = if t.toNat < 2 ^ 63 then some (.int t.toNat) else none := by
  rw [ColType.read, readInt, parseInt_decimal, Option.bind_some]
  split <;> split <;> first | rfl | omega

/-- The row that the server reads from the text, unless the time stamp is beyond a BIGINT. -/
theorem readRow_status (st : CsiStruct) :
    readRow statusColumns (rowValues (statusTexts st)) =
      if st.tstamp.toNat < 2 ^ 63 then some (statusCells st) else none := by
  have hstamp := read_tstamp st.tstamp
  split
  · rename_i hlt
    rw [if_pos hlt] at hstamp
    refine Eq.trans (Reads.readRow <| .cons hstamp <| .cons (read_short st.channel) <| .cons (read_printF st.chanBW) <|
      .cons (read_byte st.rate) <| .cons (read_byte st.nr) <| .cons (read_byte st.nc) <|
      .cons (read_byte st.numTones) <| .cons (read_byte st.noise) <| .cons (read_byte st.phyerr) <|
      .cons (read_byte st.rssi) <| .cons (read_byte st.rssi0) <| .cons (read_byte st.rssi1) <|
      .cons (read_byte st.rssi2) <| .cons (read_short st.payloadLen) <| .cons (read_short st.csiLen) <|
      .cons (read_short st.bufLen) .nil) (congrArg some ?_)
    funext k
    cases k <;> rfl
  · rename_i hge
    rw [if_neg hge] at hstamp
    simp only [rowValues, readRow, statusTexts, statusColumns, List.map_cons, readValues, hstamp]
    rfl

/-! ### The matrix -/

def positions (nr numTones : ℕ) : List (ℕ × ℕ) :=
  (List.range numTones).flatMap fun s => (List.range nr).map fun a => (s, a)

def cellAt (m : CsiMatrix) (r c k : ℕ) : Complex := (m.get? r c k).getD ⟨0, 0⟩

def dataTexts (id : ℤ) (st : CsiStruct) (m : CsiMatrix) (p : ℕ × ℕ) : List (List Char) :=
  [decimal st.tstamp.toNat, decimal id, decimal (p.2 + 1), decimal (p.1 + 1)] ++
    (List.range st.nc.toNat).flatMap fun c =>
      [decimal (cellAt m p.2 c p.1).real.toInt, decimal (cellAt m p.2 c p.1).imag.toInt, decimal 0]

/-- The row of `csi_data` for a subcarrier and an antenna. -/
def dataCells (id : ℤ) (st : CsiStruct) (m : CsiMatrix) (p : ℕ × ℕ) : DataColumn → Option Cell
  | .timestampMilli => some (.int st.tstamp.toNat)
  | .statusId => some (.int id)
  | .antenna => some (.int (p.2 + 1))
  | .subcarrier => some (.int (p.1 + 1))
  | .rcReal c => if c < st.nc.toNat then some (.int (cellAt m p.2 c p.1).real.toInt) else none
  | .rcImag c => if c < st.nc.toNat then some (.int (cellAt m p.2 c p.1).imag.toInt) else none
  | .rcRssi c => if c < st.nc.toNat then some (.int 0) else none

def rowPiece (id : ℤ) (st : CsiStruct) (m : CsiMatrix) (p : ℕ × ℕ) : List Char :=
  ' ' :: rowText (dataTexts id st m p) ++ if p.1 + 1 = st.numTones.toNat ∧ p.2 + 1 = st.nr.toNat then [';'] else [',']

theorem mem_positions {nr numTones : ℕ} {p : ℕ × ℕ} : p ∈ positions nr numTones ↔ p.1 < numTones ∧ p.2 < nr := by
  simp only [positions, List.mem_flatMap, List.mem_range, List.mem_map]
  constructor
  · rintro ⟨s, hs, a, ha, rfl⟩
    exact ⟨hs, ha⟩
  · rintro ⟨hs, ha⟩
    exact ⟨p.1, hs, p.2, ha, rfl⟩

theorem length_positions (nr numTones : ℕ) : (positions nr numTones).length = numTones * nr := by
  exact length_flatMap_range (fun s => by simp) numTones

section Query
variable (id : ℤ) {st : CsiStruct} {m : CsiMatrix}

theorem appendRow_eq {s a : ℕ} (hin : ∀ c < st.nc.toNat, a < 3 ∧ c < 3 ∧ s < 114) (text : List Char) :
    appendRow id st m s a text = some (text ++ rowPiece id st m (s, a)) := by
  have hcell : ∀ c < st.nc.toNat, ∀ t, appendCell m a s (BitVec.ofNat 32 c).toNat t =
      some (t ++ (",'".toList ++ decimal (cellAt m a c s).real.toInt ++ "','".toList ++
        decimal (cellAt m a c s).imag.toInt ++ "','".toList ++ decimal 0 ++ "'".toList)) := by
    intro c hc t
    have hval : (BitVec.ofNat 32 c).toNat = c := toNat_counter (by have := hin c hc; omega)
    have hget : m.get? a c s = some (cellAt m a c s) := by
      rw [cellAt, CsiMatrix.get?, dif_pos (hin c hc)]
      rfl
    rw [appendCell, hval, hget]
    rfl
  have hloop : ∀ t, forUp 32 0 st.nc.toNat (fun nc => appendCell m a s nc.toNat) t =
      some (t ++ (List.range st.nc.toNat).flatMap fun c => ",'".toList ++ decimal (cellAt m a c s).real.toInt ++
        "','".toList ++ decimal (cellAt m a c s).imag.toInt ++ "','".toList ++ decimal 0 ++ "'".toList) :=
    forUp_append (by have := st.nc.toNat_lt; omega) hcell
  have hcells : (List.range st.nc.toNat).flatMap (fun c => ",'".toList ++ decimal (cellAt m a c s).real.toInt ++
      "','".toList ++ decimal (cellAt m a c s).imag.toInt ++ "','".toList ++ decimal 0 ++ "'".toList) =
      ((List.range st.nc.toNat).flatMap fun c => [decimal (cellAt m a c s).real.toInt,
        decimal (cellAt m a c s).imag.toInt, decimal 0]).flatMap fun v => ',' :: quoted v := by
    rw [List.flatMap_assoc]
    congr 1
    funext c
    simp only [String.reduceToList, quoted, List.flatMap_cons, List.flatMap_nil, List.append_assoc, List.cons_append,
      List.nil_append]
  simp only [appendRow, hloop, Option.bind_eq_bind, Option.bind_some, hcells, rowPiece, rowText, dataTexts, List.flatMap_append]
  split <;>
  · refine congrArg some ?_
    simp only [String.reduceToList, quoted, defaultWord, List.flatMap_cons, List.flatMap_nil, List.append_assoc,
      List.cons_append, List.nil_append]

theorem csiDataQuery_eq (st : CsiStruct) (m : CsiMatrix) (h : DimsFit st.nr.toNat st.nc.toNat st.numTones.toNat) :
    csiDataQuery id st m = some ("INSERT INTO csi_data VALUES".toList ++
      (positions st.nr.toNat st.numTones.toNat).flatMap (rowPiece id st m)) := by
  have hnr := st.nr.toNat_lt
  have hnt := st.numTones.toNat_lt
  have hrow : ∀ s < st.numTones.toNat, ∀ a < st.nr.toNat, ∀ t,
      appendRow id st m (BitVec.ofNat 32 s).toNat (BitVec.ofNat 32 a).toNat t =
        some (t ++ rowPiece id st m (s, a)) := by
    intro s hs a ha t
    rw [toNat_counter (by omega), toNat_counter (by omega), appendRow_eq id fun c hc => by unfold DimsFit at h; omega]
  rw [csiDataQuery, forUp_append (by omega) fun s hs t => forUp_append (by omega) (hrow s hs) t, positions,
    List.flatMap_assoc]
  simp only [List.flatMap_map]

theorem dimsFit_of_csiDataQuery {st : CsiStruct} {m : CsiMatrix} {text : List Char}
    (h : csiDataQuery id st m = some text) : DimsFit st.nr.toNat st.nc.toNat st.numTones.toNat := by
  by_contra hdims
  simp only [DimsFit, not_or] at hdims
  obtain ⟨hnr0, hnc0, hnt0, hbig⟩ := hdims
  have hnr := st.nr.toNat_lt
  have hnc := st.nc.toNat_lt
  have hnt := st.numTones.toNat_lt
  -- The last round of each loop ran, and it used the cell with the largest indices.
  obtain ⟨_, _, h⟩ := forUp_ran_last (by omega) h hnt0
  obtain ⟨_, _, h⟩ := forUp_ran_last (by omega) h hnr0
  obtain ⟨_, h, -⟩ := Option.bind_eq_some_iff.mp h
  obtain ⟨_, _, h⟩ := forUp_ran_last (by omega) h hnc0
  obtain ⟨_, h, -⟩ := Option.bind_eq_some_iff.mp h
  rw [toNat_counter (by omega), toNat_counter (by omega), toNat_counter (by omega), CsiMatrix.get?] at h
  split at h
  · exact hbig (by omega)
  · cases h

theorem quote_not_mem_dataTexts (st : CsiStruct) (m : CsiMatrix) (p : ℕ × ℕ) : ∀ v ∈ dataTexts id st m p, '\'' ∉ v := by
  intro v hv
  simp only [dataTexts, List.mem_append, List.mem_cons, List.not_mem_nil, or_false, List.mem_flatMap] at hv
  rcases hv with (rfl | rfl | rfl | rfl) | ⟨c, -, rfl | rfl | rfl⟩ <;> exact quote_not_mem_decimal _

/-- The last pair ends the statement, every other one is followed by more. -/
theorem positions_eq {nr numTones : ℕ} (hnr : 1 ≤ nr) (hnt : 1 ≤ numTones) :
    ∃ init, positions nr numTones = init ++ [(numTones - 1, nr - 1)] ∧
      ∀ p ∈ init, ¬ (p.1 + 1 = numTones ∧ p.2 + 1 = nr) := by
  obtain ⟨n, rfl⟩ := Nat.exists_eq_add_of_le' hnt
  obtain ⟨k, rfl⟩ := Nat.exists_eq_add_of_le' hnr
  refine ⟨positions (k + 1) n ++ (List.range k).map fun a => (n, a), ?_, ?_⟩
  · simp [positions, List.range_succ]
  · intro p hp
    rcases List.mem_append.mp hp with hp | hp
    · have := mem_positions.mp hp
      omega
    · obtain ⟨a, ha, rfl⟩ := List.mem_map.mp hp
      have := List.mem_range.mp ha
      simp only
      omega

theorem lex_dataHead (rest : List Char) :
    lex ("INSERT INTO csi_data VALUES".toList ++ ' ' :: rest) = (lex rest).map (insertHead "csi_data" ++ ·) := by
  simp [lex, lexFrom, isWordChar, insertHead]
  rfl

theorem lex_rowPieces (st : CsiStruct) (m : CsiMatrix) (ps : List (ℕ × ℕ)) :
    lex (ps.flatMap (rowPiece id st m)) = some (ps.flatMap fun p => rowTokens (dataTexts id st m p) ++
      [if p.1 + 1 = st.numTones.toNat ∧ p.2 + 1 = st.nr.toNat then .semicolon else .comma]) := by
  induction ps with
  | nil => rfl
  | cons p ps ih =>
    rw [List.flatMap_cons, rowPiece, List.cons_append, List.cons_append, lex_space, List.append_assoc,
      lex_rowText (quote_not_mem_dataTexts id st m p), List.flatMap_cons]
    split
    · rw [List.singleton_append, lex_semicolon, ih]
      simp
    · rw [List.singleton_append, lex_comma, ih]
      simp

theorem parseStatement_data (st : CsiStruct) (m : CsiMatrix) (hnr : 1 ≤ st.nr.toNat) (hnt : 1 ≤ st.numTones.toNat) :
    parseStatement ("INSERT INTO csi_data VALUES".toList ++
      (positions st.nr.toNat st.numTones.toNat).flatMap (rowPiece id st m)) =
        some (.insertData ((positions st.nr.toNat st.numTones.toNat).map fun p => rowValues (dataTexts id st m p))) := by
  obtain ⟨init, hpos, hinit⟩ := positions_eq hnr hnt
  rw [hpos]
  generalize hlast : (st.numTones.toNat - 1, st.nr.toNat - 1) = last
  have hsep : last.1 + 1 = st.numTones.toNat ∧ last.2 + 1 = st.nr.toNat := by
    rw [← hlast]
    simp only
    omega
  have htokens : ((init ++ [last]).flatMap fun p => rowTokens (dataTexts id st m p) ++
      [if p.1 + 1 = st.numTones.toNat ∧ p.2 + 1 = st.nr.toNat then .semicolon else .comma]) =
      (init.map (dataTexts id st m)).flatMap (fun v => rowTokens v ++ [.comma]) ++
        (rowTokens (dataTexts id st m last) ++ [.semicolon]) := by
    rw [List.flatMap_append, List.flatMap_singleton, if_pos hsep, List.flatMap_map]
    congr 1
    refine List.flatMap_congr fun p hp => ?_
    rw [if_neg (hinit p hp)]
  have hlex : lex ("INSERT INTO csi_data VALUES".toList ++ (init ++ [last]).flatMap (rowPiece id st m)) =
      (lex ((init ++ [last]).flatMap (rowPiece id st m))).map (insertHead "csi_data" ++ ·) := by
    obtain ⟨p, ps, hps⟩ : ∃ p ps, init ++ [last] = p :: ps := List.exists_cons_of_ne_nil (by simp)
    rw [hps, List.flatMap_cons, rowPiece, List.cons_append, List.cons_append, lex_dataHead, lex_space]
  rw [lex_rowPieces, htokens, Option.map_some] at hlex
  have hparse := parseRows_rows (Or.inr rfl) (dataTexts id st m last) (init.map (dataTexts id st m)) []
  simp only [parseStatement, hlex, Option.bind_eq_bind, Option.bind_some]
  rw [List.take_left' (by rfl), List.drop_left' (by rfl), if_neg (by decide), if_pos rfl, hparse]
  simp [List.map_append]

/-- Without a pair of subcarrier and antenna the text is not a statement. -/
theorem parseStatement_noData : parseStatement "INSERT INTO csi_data VALUES".toList = none := by decide +kernel

theorem parseStatement_select : parseStatement selectQuery = some .selectLatest := by decide +kernel

theorem read_part (x : Int32) : ColType.read .integer (decimal x.toInt) = some (.int x.toInt) :=
  read_int ⟨x.le_toInt, x.toInt_lt⟩

theorem read_zero : ColType.read .integer (decimal 0) = some (.int 0) := read_int (by omega)

theorem reads_cell (z : Complex) (i : Fin 3) {cols : List (DataColumn × ColType)} {texts : List (List Char)}
    {cells : List Cell} (h : Reads cols texts cells) :
    Reads ((.rcReal i, .integer) :: (.rcImag i, .integer) :: (.rcRssi i, .integer) :: cols)
      ([decimal z.real.toInt, decimal z.imag.toInt, decimal 0] ++ texts)
      ([.int z.real.toInt, .int z.imag.toInt, .int 0] ++ cells) :=
  .cons (read_part _) (.cons (read_part _) (.cons read_zero h))

theorem reads_cells (z : ℕ → Complex) {n : ℕ} (hn : n ≤ 3) :
    Reads (dataColumns.drop 4)
      ((List.range n).flatMap fun i => [decimal (z i).real.toInt, decimal (z i).imag.toInt, decimal 0])
      ((List.range n).flatMap fun i => [.int (z i).real.toInt, .int (z i).imag.toInt, .int 0]) := by
  interval_cases n
  · exact .nil
  · exact reads_cell (z 0) 0 .nil
  · exact reads_cell (z 0) 0 (reads_cell (z 1) 1 .nil)
  · exact reads_cell (z 0) 0 (reads_cell (z 1) 1 (reads_cell (z 2) 2 .nil))

theorem assign_cells (x₁ x₂ x₃ x₄ : Cell) (z : ℕ → Complex) {n : ℕ} (hn : n ≤ 3) (k : DataColumn) :
    assign (dataColumns.map Prod.fst) (x₁ :: x₂ :: x₃ :: x₄ ::
      (List.range n).flatMap fun i => [.int (z i).real.toInt, .int (z i).imag.toInt, .int 0]) k =
    match k with
    | .timestampMilli => some x₁
    | .statusId => some x₂
    | .antenna => some x₃
    | .subcarrier => some x₄
    | .rcReal i => if i < n then some (.int (z i).real.toInt) else none
    | .rcImag i => if i < n then some (.int (z i).imag.toInt) else none
    | .rcRssi i => if i < n then some (.int 0) else none := by
  interval_cases n <;> cases k <;> first | rfl | (rename_i i; fin_cases i <;> rfl)

theorem readRow_data {st : CsiStruct} (m : CsiMatrix) (hdims : DimsFit st.nr.toNat st.nc.toNat st.numTones.toNat)
    {p : ℕ × ℕ} (hp : p ∈ positions st.nr.toNat st.numTones.toNat) (hid : -(2 ^ 31) ≤ id ∧ id < 2 ^ 31)
    (hts : st.tstamp.toNat < 2 ^ 63) :
    readRow dataColumns (rowValues (dataTexts id st m p)) = some (dataCells id st m p) := by
  have hpos := mem_positions.mp hp
  have hnr := st.nr.toNat_lt
  have hnt := st.numTones.toNat_lt
  have hnc : st.nc.toNat ≤ 3 := by unfold DimsFit at hdims; omega
  have hstamp := read_tstamp st.tstamp
  rw [if_pos hts] at hstamp
  have hp₁ : p.1 < 256 := hpos.1.trans hnt
  have hp₂ : p.2 < 256 := hpos.2.trans hnr
  have hsmall : ∀ {n : ℕ}, n < 256 → ColType.read .integer (decimal (n + 1)) = some (.int (n + 1)) := fun h =>
    read_int (by omega)
  refine Eq.trans (Reads.readRow (.cons hstamp (.cons (read_int hid) (.cons (hsmall hp₂)
    (.cons (hsmall hp₁) (reads_cells (fun i => cellAt m p.2 i p.1) hnc))))))
    (congrArg some ?_)
  funext k
  exact (assign_cells _ _ _ _ _ hnc k).trans (by cases k <;> rfl)

end Query

end AtherosCsi
