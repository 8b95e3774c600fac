import AtherosCsi.Theorems.Queries

/-! One receiver alone with its database. Each of the three statements of a call either does what it is for
    or changes no row; the id that the query finds is that of the row just inserted, because the sequence
    stands above all rows. So whatever the server refuses, no row of `csi_data` is linked to a packet that
    is not its own. -/

namespace AtherosCsi
open Scanf Sql

/-! ### Statements -/

section Insert
variable {κ : Type} [DecidableEq κ] {cols : List (κ × ColType)} {rows : List (List Value)} (fate : Fate) (t : Table κ)

theorem insertInto_eq {cs : List (κ → Option Cell)} (h : rows.mapM (readRow cols) = some cs) :
    insertInto cols fate t rows =
      if fate.refuse = false ∧ (t.skip fate.skip).next + cs.length ≤ 2 ^ 31 then
        (.commandOk, (t.skip fate.skip).insert cs)
      else (.fatalError, t.skip fate.skip) := by
  have hinsert : (t.skip fate.skip).insert? cols rows =
      if (t.skip fate.skip).next + cs.length ≤ 2 ^ 31 then some ((t.skip fate.skip).insert cs) else none := by
    rw [Table.insert?, h]
    rfl
  rw [insertInto, hinsert]
  cases fate.refuse with
  | true => rfl
  | false =>
    by_cases hnext : (t.skip fate.skip).next + cs.length ≤ 2 ^ 31
    · simp only [hnext, Bool.false_eq_true, if_false, if_true, and_self]
    · simp only [hnext, Bool.false_eq_true, if_false, and_false]

theorem insertInto_none (h : rows.mapM (readRow cols) = none) :
    insertInto cols fate t rows = (.fatalError, t.skip fate.skip) := by
  have hinsert : (t.skip fate.skip).insert? cols rows = none := by
    rw [Table.insert?, h]
    rfl
  rw [insertInto, hinsert]
  cases fate.refuse <;> rfl

end Insert

def Server.after (s : Server) (db : Db) : Server := ⟨db, fun n => s.fates (n + 1)⟩

def Server.statusTable (s : Server) : Table StatusColumn := s.db.status.skip (s.fates 0).skip

def Server.dataTable (s : Server) : Table DataColumn := s.db.data.skip (s.fates 0).skip

/-- The server is willing to take the row of a packet, and has a number for it. -/
def Server.TakesStatus (s : Server) (st : CsiStruct) : Prop :=
  (s.fates 0).refuse = false ∧ st.tstamp.toNat < 2 ^ 63 ∧ s.statusTable.next + 1 ≤ 2 ^ 31

instance (s : Server) (st : CsiStruct) : Decidable (s.TakesStatus st) := by unfold Server.TakesStatus; infer_instance

theorem exec_status_of_takes {s : Server} {st : CsiStruct} (h : s.TakesStatus st) :
    s.exec (createCsiStatusInsertQuery st) =
      (.commandOk, s.after { s.db with status := s.statusTable.insert [statusCells st] }) := by
  obtain ⟨hrefuse, hts, hnext⟩ := h
  have hread : [rowValues (statusTexts st)].mapM (readRow statusColumns) = some [statusCells st] := by
    rw [List.mapM_cons, readRow_status, if_pos hts]
    rfl
  simp only [Server.exec, parseStatement_status, Db.exec, insertInto_eq _ _ hread]
  rw [if_pos ⟨hrefuse, hnext⟩]
  rfl

theorem exec_status_of_not_takes {s : Server} {st : CsiStruct} (h : ¬ s.TakesStatus st) :
    s.exec (createCsiStatusInsertQuery st) = (.fatalError, s.after { s.db with status := s.statusTable }) := by
  simp only [Server.exec, parseStatement_status, Db.exec]
  by_cases hts : st.tstamp.toNat < 2 ^ 63
  · have hread : [rowValues (statusTexts st)].mapM (readRow statusColumns) = some [statusCells st] := by
      rw [List.mapM_cons, readRow_status, if_pos hts]
      rfl
    rw [insertInto_eq _ _ hread, if_neg fun hok => h ⟨hok.1, hts, hok.2⟩]
    rfl
  · have hread : [rowValues (statusTexts st)].mapM (readRow statusColumns) = none := by
      rw [List.mapM_cons, readRow_status, if_neg hts]
      rfl
    rw [insertInto_none _ _ hread]
    rfl

theorem exec_select (s : Server) :
    s.exec selectQuery =
      if (s.fates 0).refuse then (.fatalError, s.after s.db)
      else (.tuplesOk (s.db.status.latest.map decimal), s.after s.db) := by
  simp only [Server.exec, parseStatement_select, Db.exec]
  split <;> rfl

/-- The rows of `csi_data` that belong to a packet whose status has the key `id`. -/
def dataRows (id : ℤ) (st : CsiStruct) (m : CsiMatrix) : List (DataColumn → Option Cell) :=
  (positions st.nr.toNat st.numTones.toNat).map (dataCells id st m)

def Server.TakesData (s : Server) (st : CsiStruct) : Prop :=
  (s.fates 0).refuse = false ∧ 1 ≤ st.nr.toNat ∧ 1 ≤ st.numTones.toNat ∧
    s.dataTable.next + (st.numTones.toNat * st.nr.toNat : ℕ) ≤ 2 ^ 31

section Data
variable {s : Server} {id : ℤ} {st : CsiStruct} {m : CsiMatrix} {text : List Char}
  (htext : csiDataQuery id st m = some text) (hid : -(2 ^ 31) ≤ id ∧ id < 2 ^ 31) (hts : st.tstamp.toNat < 2 ^ 63)

include htext in
theorem exec_data_empty (h : ¬ (1 ≤ st.nr.toNat ∧ 1 ≤ st.numTones.toNat)) : s.exec text = (.fatalError, s.after s.db) := by
  rw [csiDataQuery_eq id st m (dimsFit_of_csiDataQuery id htext)] at htext
  have hnil : positions st.nr.toNat st.numTones.toNat = [] := by
    rw [← List.length_eq_zero_iff, length_positions]
    rcases Nat.eq_zero_or_pos st.nr.toNat with h0 | h0
    · rw [h0, Nat.mul_zero]
    · have hnt : st.numTones.toNat = 0 := by omega
      rw [hnt, Nat.zero_mul]
  rw [hnil, List.flatMap_nil, List.append_nil] at htext
  rw [← Option.some.inj htext, Server.exec, parseStatement_noData]
  rfl

include htext hid hts

theorem exec_data (hnr : 1 ≤ st.nr.toNat) (hnt : 1 ≤ st.numTones.toNat) :
    ∃ res data, s.exec text = (res, s.after { s.db with data }) ∧
      insertInto dataColumns (s.fates 0) s.db.data
        ((positions st.nr.toNat st.numTones.toNat).map fun p => rowValues (dataTexts id st m p)) = (res, data) ∧
      ((positions st.nr.toNat st.numTones.toNat).map fun p => rowValues (dataTexts id st m p)).mapM (readRow dataColumns) =
        some (dataRows id st m) := by
  have hdims := dimsFit_of_csiDataQuery id htext
  rw [csiDataQuery_eq id st m hdims] at htext
  refine ⟨_, _, ?_, rfl, Loop.mapM_map_eq_some fun p hp => readRow_data id m hdims hp hid hts⟩
  rw [← Option.some.inj htext, Server.exec, parseStatement_data id st m hnr hnt]
  rfl

theorem exec_data_of_takes (h : s.TakesData st) :
    s.exec text = (.commandOk, s.after { s.db with data := s.dataTable.insert (dataRows id st m) }) := by
  obtain ⟨hrefuse, hnr, hnt, hnext⟩ := h
  obtain ⟨res, data, hexec, hinsert, hread⟩ := exec_data htext hid hts hnr hnt
  rw [insertInto_eq _ _ hread, if_pos ⟨hrefuse, by rw [dataRows, List.length_map, length_positions]; exact hnext⟩] at hinsert
  cases hinsert
  exact hexec

theorem exec_data_of_not_takes (h : ¬ s.TakesData st) :
    ∃ data, s.exec text = (.fatalError, s.after { s.db with data }) ∧ data.rows = s.db.data.rows := by
  by_cases hsome : 1 ≤ st.nr.toNat ∧ 1 ≤ st.numTones.toNat
  · obtain ⟨res, data, hexec, hinsert, hread⟩ := exec_data htext hid hts hsome.1 hsome.2
    rw [insertInto_eq _ _ hread, if_neg] at hinsert
    · cases hinsert
      exact ⟨_, hexec, rfl⟩
    · rw [dataRows, List.length_map, length_positions]
      exact fun hok => h ⟨hok.1, hsome.1, hsome.2, hok.2⟩
  · exact ⟨_, exec_data_empty htext hsome, rfl⟩

end Data

/-! ### A call -/

theorem atoi_decimal {n : ℤ} (h : 0 < n ∧ n < 2 ^ 31) : atoi (decimal n) = n := by
  have hdigit : ∀ c ∈ Nat.toDigits 10 n.natAbs, c.isDigit = true := fun c hc =>
    Nat.isDigit_of_mem_toDigits (by decide) (by decide) hc
  obtain ⟨c, cs, hcs⟩ := List.exists_cons_of_ne_nil (Nat.toDigits_ne_nil (b := 10) (n := n.natAbs))
  have hc : c.isDigit = true := hdigit c (hcs ▸ List.mem_cons_self)
  have hspace : isSpace c = false := not_isSpace_of_isHexDigit (by rw [isHexDigit, hc]; rfl)
  have hsign : splitSign (c :: cs) = ([], c :: cs) := splitSign_of_isHexDigit (by rw [isHexDigit, hc]; rfl)
  have htake : (c :: cs).takeWhile Char.isDigit = c :: cs := by
    rw [← hcs, ← List.append_nil (Nat.toDigits 10 n.natAbs), List.takeWhile_append_of_pos hdigit]
    rfl
  have hval : (Nat.ofDigitChars 10 (c :: cs) 0 : ℤ) = n := by
    rw [← hcs, Nat.ofDigitChars_ten_toDigits]
    omega
  have hlong : (Int64.ofInt n).toInt = n := Int64.toInt_ofInt_of_le (by omega) (by omega)
  have hstrtol : strtol (decimal n) = Int64.ofInt n := by
    have hmin : ¬ n < Int64.minValue.toInt := by
      rw [Int64.toInt_minValue]
      omega
    have hmax : ¬ Int64.maxValue.toInt < n := by
      rw [Int64.toInt_maxValue]
      omega
    simp only [strtol, decimal, if_neg (Int.not_lt.mpr (Int.le_of_lt h.1)), hcs, List.dropWhile_cons, hspace, Bool.false_eq_true, if_false,
      hsign, htake, hval, List.nil_eq, reduceCtorEq, hmin, hmax]
  rw [atoi, hstrtol, Int64.toInt_toInt32, hlong, Int.bmod_eq_of_le (by omega) (by omega)]

/-- What is left of a call once its id is known. -/
def dataStage (c : Call) (id : ℤ) : PgProg :=
  match csiDataQuery id c.csiStatus c.csiMatrix with
  | none => .crash
  | some query => .call query fun res => if res ≠ .commandOk then .ret (0, false) else .ret (1, true)

/-- What is left of a call once its status is inserted. -/
def selectStage (c : Call) : PgProg :=
  .call selectQuery fun res =>
    match res with
    | .tuplesOk (some value) => if atoi value = 0 then .ret (0, true) else dataStage c (atoi value)
    | .tuplesOk none => .crash
    | _ => .ret (0, false)

theorem saveCsi_open (c : Call) :
    saveCsi true c.csiStatus c.csiMatrix =
      .call (createCsiStatusInsertQuery c.csiStatus) fun res =>
        if res ≠ .commandOk then .ret (0, false) else selectStage c := by
  have hdata : ∀ id, (saveCsiMatrix true id c.csiStatus c.csiMatrix).bind
      (fun r => if r.1 = 0 then (.ret (0, r.2) : PgProg) else .ret (1, r.2)) = dataStage c id := by
    intro id
    simp only [saveCsiMatrix, dataStage, Bool.true_eq_false, if_false]
    cases csiDataQuery id c.csiStatus c.csiMatrix with
    | none => rfl
    | some query =>
      refine congrArg (Prog.call query) (funext fun res => ?_)
      cases res <;> rfl
  simp only [saveCsi, saveCsiStatus, Bool.true_eq_false, if_false, Prog.bind_call]
  refine congrArg (Prog.call _) (funext fun res => ?_)
  split
  · rfl
  · refine congrArg (Prog.call _) (funext fun res => ?_)
    rcases res with _ | (_ | value) | _
    · rfl
    · rfl
    · simp only [Prog.bind_ret, hdata]
    · rfl

section Stages
variable {c : Call} {s : Server}

theorem run_dataStage_of_takes {id : ℤ} (hdims : DimsFit c.csiStatus.nr.toNat c.csiStatus.nc.toNat c.csiStatus.numTones.toNat)
    (hid : -(2 ^ 31) ≤ id ∧ id < 2 ^ 31) (hts : c.csiStatus.tstamp.toNat < 2 ^ 63) (h : s.TakesData c.csiStatus) :
    (dataStage c id).run Server.exec s =
      some ((1, true), s.after { s.db with data := s.dataTable.insert (dataRows id c.csiStatus c.csiMatrix) }) := by
  have htext := csiDataQuery_eq id c.csiStatus c.csiMatrix hdims
  rw [dataStage, htext, Prog.run_call, exec_data_of_takes htext hid hts h]
  rfl

theorem run_dataStage_of_not_takes {id : ℤ}
    (hdims : DimsFit c.csiStatus.nr.toNat c.csiStatus.nc.toNat c.csiStatus.numTones.toNat)
    (hid : -(2 ^ 31) ≤ id ∧ id < 2 ^ 31) (hts : c.csiStatus.tstamp.toNat < 2 ^ 63) (h : ¬ s.TakesData c.csiStatus) :
    ∃ data, (dataStage c id).run Server.exec s = some ((0, false), s.after { s.db with data }) ∧
      data.rows = s.db.data.rows := by
  have htext := csiDataQuery_eq id c.csiStatus c.csiMatrix hdims
  obtain ⟨data, hexec, hrows⟩ := exec_data_of_not_takes htext hid hts h
  refine ⟨data, ?_, hrows⟩
  rw [dataStage, htext, Prog.run_call, hexec]
  rfl

theorem run_selectStage {id : ℤ} (hlatest : s.db.status.latest = some id) (hid : 0 < id ∧ id < 2 ^ 31) :
    (selectStage c).run Server.exec s =
      if (s.fates 0).refuse then some ((0, false), s.after s.db) else (dataStage c id).run Server.exec (s.after s.db) := by
  rw [selectStage, Prog.run_call, exec_select, hlatest]
  cases (s.fates 0).refuse with
  | true => rfl
  | false =>
    simp only [Bool.false_eq_true, if_false, Option.map_some, atoi_decimal hid]
    rw [if_neg (Int.ne_of_gt hid.1)]

def Server.withStatus (s : Server) (st : CsiStruct) : Server :=
  s.after { s.db with status := s.statusTable.insert [statusCells st] }

theorem run_saveCsi_of_takes (h : s.TakesStatus c.csiStatus) :
    (saveCsi true c.csiStatus c.csiMatrix).run Server.exec s =
      if (s.fates 1).refuse then
        some ((0, false), (s.withStatus c.csiStatus).after (s.withStatus c.csiStatus).db)
      else (dataStage c s.statusTable.next).run Server.exec ((s.withStatus c.csiStatus).after (s.withStatus c.csiStatus).db) := by
  rw [saveCsi_open, Prog.run_call, exec_status_of_takes h]
  exact run_selectStage (Table.latest_insert_one _ _) ⟨s.statusTable.next_pos, Int.lt_of_add_one_le h.2.2⟩

theorem run_saveCsi_of_not_takes (h : ¬ s.TakesStatus c.csiStatus) :
    (saveCsi true c.csiStatus c.csiMatrix).run Server.exec s =
      some ((0, false), s.after { s.db with status := s.statusTable }) := by
  rw [saveCsi_open, Prog.run_call, exec_status_of_not_takes h]
  rfl

end Stages

structure Effect (c : Call) (db db' : Db) (returned : ℤ) (statusAdded : List StatusRow) (dataAdded : List DataRow) : Prop where
  status : db'.status.rows = db.status.rows ++ statusAdded
  data : db'.data.rows = db.data.rows ++ dataAdded
  fresh : ∀ row ∈ statusAdded, db.status.next ≤ row.id
  single : statusAdded.length ≤ 1
  own : ∀ d ∈ dataAdded, ∃ row, statusAdded = [row] ∧ d.cell .statusId = some (.int row.id)
  saved : returned = 1 → ∃ id, statusAdded = [⟨id, statusCells c.csiStatus⟩] ∧
    dataAdded.map Row.cell = dataRows id c.csiStatus c.csiMatrix

theorem Effect.failed {c : Call} {db db' : Db} {statusAdded : List StatusRow} (hsingle : statusAdded.length ≤ 1)
    (hfresh : ∀ row ∈ statusAdded, db.status.next ≤ row.id) (hstatus : db'.status.rows = db.status.rows ++ statusAdded)
    (hdata : db'.data.rows = db.data.rows) : Effect c db db' 0 statusAdded [] where
  status := hstatus
  data := by rw [hdata, List.append_nil]
  fresh := hfresh
  single := hsingle
  own := fun d hd => absurd hd List.not_mem_nil
  saved := fun h => absurd h (by decide)

theorem statusId_of_mem_numbered {id n : ℤ} {st : CsiStruct} {m : CsiMatrix} {d : DataRow}
    (h : d ∈ Table.numbered n (dataRows id st m)) : d.cell .statusId = some (.int id) := by
  have hcell : d.cell ∈ dataRows id st m := by
    rw [← Table.cell_numbered n (dataRows id st m)]
    exact List.mem_map_of_mem h
  obtain ⟨p, -, hp⟩ := List.mem_map.mp hcell
  rw [← hp]
  rfl

def Server.newStatus (s : Server) (st : CsiStruct) : StatusRow := ⟨s.statusTable.next, statusCells st⟩

/-- What a call can do. It leaves the tables alone when the connection is closed or the server does not take
    the status; else the status stays, whether or not the rows of the matrix follow. -/
theorem saveCsi_cases {c : Call} (hdims : DimsFit c.csiStatus.nr.toNat c.csiStatus.nc.toNat c.csiStatus.numTones.toNat)
    (conn : Bool) (s : Server) :
    ∃ returned conn' s', (saveCsi conn c.csiStatus c.csiMatrix).run Server.exec s = some ((returned, conn'), s') ∧
      (¬ (conn = true ∧ s.TakesStatus c.csiStatus) ∧ returned = 0 ∧ s'.db.status.rows = s.db.status.rows ∧
          s'.db.data.rows = s.db.data.rows ∨
        (conn = true ∧ s.TakesStatus c.csiStatus) ∧ s'.db.status.rows = s.db.status.rows ++ [s.newStatus c.csiStatus] ∧
          (returned = 0 ∧ s'.db.data.rows = s.db.data.rows ∨
            returned = 1 ∧ ∃ n, s'.db.data.rows = s.db.data.rows ++
              Table.numbered n (dataRows (s.newStatus c.csiStatus).id c.csiStatus c.csiMatrix))) := by
  cases conn with
  | false => exact ⟨0, false, s, rfl, .inl ⟨fun h => absurd h.1 (by decide), rfl, rfl, rfl⟩⟩
  | true =>
    by_cases hstatus : s.TakesStatus c.csiStatus
    · have hid : -(2 ^ 31) ≤ s.statusTable.next ∧ s.statusTable.next < 2 ^ 31 := by
        have := s.statusTable.next_pos
        have := hstatus.2.2
        omega
      rw [run_saveCsi_of_takes hstatus]
      split
      · exact ⟨_, _, _, rfl, .inr ⟨⟨rfl, hstatus⟩, rfl, .inl ⟨rfl, rfl⟩⟩⟩
      · by_cases hdata : ((s.withStatus c.csiStatus).after (s.withStatus c.csiStatus).db).TakesData c.csiStatus
        · exact ⟨_, _, _, run_dataStage_of_takes hdims hid hstatus.2.1 hdata,
            .inr ⟨⟨rfl, hstatus⟩, rfl, .inr ⟨rfl, _, rfl⟩⟩⟩
        · obtain ⟨data, hrun, hrows⟩ := run_dataStage_of_not_takes hdims hid hstatus.2.1 hdata
          exact ⟨_, _, _, hrun, .inr ⟨⟨rfl, hstatus⟩, rfl, .inl ⟨rfl, hrows⟩⟩⟩
    · exact ⟨_, _, _, run_saveCsi_of_not_takes hstatus, .inl ⟨fun h => hstatus h.2, rfl, rfl, rfl⟩⟩

/-- A call always returns, and adds rows only as `Effect` says. -/
theorem saveCsi_effect {c : Call} (hdims : DimsFit c.csiStatus.nr.toNat c.csiStatus.nc.toNat c.csiStatus.numTones.toNat)
    (conn : Bool) (s : Server) :
    ∃ returned conn' s' statusAdded dataAdded,
      (saveCsi conn c.csiStatus c.csiMatrix).run Server.exec s = some ((returned, conn'), s') ∧
      Effect c s.db s'.db returned statusAdded dataAdded := by
  obtain ⟨returned, conn', s', hrun, hcases⟩ := saveCsi_cases hdims conn s
  have hnew : ∀ row ∈ [s.newStatus c.csiStatus], s.db.status.next ≤ row.id := by
    intro row hrow
    rw [List.mem_singleton.mp hrow]
    simp only [Server.newStatus, Server.statusTable, Table.skip]
    omega
  rcases hcases with ⟨-, rfl, hstatus, hdata⟩ | ⟨-, hstatus, ⟨rfl, hdata⟩ | ⟨rfl, n, hdata⟩⟩
  · refine ⟨_, _, _, [], [], hrun, .failed (Nat.zero_le _) (fun row h => absurd h List.not_mem_nil) ?_ hdata⟩
    rw [hstatus, List.append_nil]
  · exact ⟨_, _, _, _, _, hrun, .failed (Nat.le_refl _) hnew hstatus hdata⟩
  · refine ⟨_, _, _, _, _, hrun, hstatus, hdata, hnew, Nat.le_refl _, ?_, ?_⟩
    · exact fun d hd => ⟨_, rfl, statusId_of_mem_numbered hd⟩
    · exact fun _ => ⟨_, rfl, Table.cell_numbered _ _⟩

/-- A call that returns 1 has added its status and its matrix. One that returns 0 has added no row of the
    matrix, but its status stays if the server took it. The database is any one whose tables are `Table`s: the
    sequences stand above the keys. -/
theorem saveCsi_rows (conn : Bool) (s : Server) (c : Call) (hnr : c.csiStatus.nr.toNat ≤ 3) (hnc : c.csiStatus.nc.toNat ≤ 3)
    (hnt : c.csiStatus.numTones.toNat ≤ 114) :
    ∃ returned conn' s', (saveCsi conn c.csiStatus c.csiMatrix).run Server.exec s = some ((returned, conn'), s') ∧
      (returned = 0 ∨ returned = 1) ∧
      (returned = 0 → s'.db.data.rows = s.db.data.rows ∧
        (¬ (conn = true ∧ s.TakesStatus c.csiStatus) → s'.db.status.rows = s.db.status.rows) ∧
        (conn = true ∧ s.TakesStatus c.csiStatus →
          s'.db.status.rows = s.db.status.rows ++ [⟨s.statusTable.next, statusCells c.csiStatus⟩])) ∧
      (returned = 1 →
        s'.db.status.rows = s.db.status.rows ++ [⟨s.statusTable.next, statusCells c.csiStatus⟩] ∧
        ∃ added, s'.db.data.rows = s.db.data.rows ++ added ∧
          added.map Row.cell = dataRows s.statusTable.next c.csiStatus c.csiMatrix) := by
  obtain ⟨returned, conn', s', hrun, hcases⟩ := saveCsi_cases (DimsFit.of_le ⟨hnr, hnc, hnt⟩) conn s
  refine ⟨returned, conn', s', hrun, ?_⟩
  rcases hcases with ⟨hno, rfl, hstatus, hdata⟩ | ⟨hyes, hstatus, ⟨rfl, hdata⟩ | ⟨rfl, n, hdata⟩⟩
  · exact ⟨.inl rfl, fun _ => ⟨hdata, fun _ => hstatus, fun h => absurd h hno⟩, fun h => absurd h (by decide)⟩
  · exact ⟨.inl rfl, fun _ => ⟨hdata, fun h => absurd hyes h, fun _ => hstatus⟩, fun h => absurd h (by decide)⟩
  · exact ⟨.inr rfl, fun h => absurd h (by decide), fun _ => ⟨hstatus, _, hdata, Table.cell_numbered _ _⟩⟩

/-! ### Call after call -/

structure CallLog.Sound (l : CallLog) : Prop where
  single : l.statusAdded.length ≤ 1
  own : ∀ d ∈ l.dataAdded, ∃ row, l.statusAdded = [row] ∧ d.cell .statusId = some (.int row.id)
  saved : l.returned = 1 → ∃ id, l.statusAdded = [⟨id, statusCells l.call.csiStatus⟩] ∧
    l.dataAdded.map Row.cell = dataRows id l.call.csiStatus l.call.csiMatrix

/-- The tables hold what they held in `db` and what the calls since then have added, each new status under
    a key of its own. -/
structure Session.Traced (db : Db) (s : Session) : Prop where
  status : s.server.db.status.rows = db.status.rows ++ s.log.flatMap CallLog.statusAdded
  data : s.server.db.data.rows = db.data.rows ++ s.log.flatMap CallLog.dataAdded
  distinct : (s.log.flatMap CallLog.statusAdded).Pairwise fun a b => a.id < b.id
  new : ∀ old ∈ db.status.rows, ∀ row ∈ s.log.flatMap CallLog.statusAdded, old.id < row.id
  sound : ∀ l ∈ s.log, l.Sound

theorem Session.save_of_run {s : Session} {c : Call} {returned : ℤ} {conn : Bool} {server : Server}
    {statusAdded : List StatusRow} {dataAdded : List DataRow}
    (hrun : (saveCsi s.conn c.csiStatus c.csiMatrix).run Server.exec s.server = some ((returned, conn), server))
    (hstatus : server.db.status.rows = s.server.db.status.rows ++ statusAdded)
    (hdata : server.db.data.rows = s.server.db.data.rows ++ dataAdded) :
    s.save c = some ⟨conn, server, s.log ++ [⟨c, returned, statusAdded, dataAdded⟩]⟩ := by
  rw [Session.save, hrun]
  simp only [Option.bind_eq_bind, Option.bind_some, hstatus, hdata, List.drop_left]
  rfl

theorem Session.saveAll_cons {s t : Session} {c : Call} (h : s.save c = some t) (cs : List Call) :
    s.saveAll (c :: cs) = t.saveAll cs := by
  rw [Session.saveAll, List.foldlM_cons, h]
  rfl

theorem Session.Traced.start (conn : Bool) (server : Server) : Session.Traced server.db ⟨conn, server, []⟩ where
  status := (List.append_nil _).symm
  data := (List.append_nil _).symm
  distinct := .nil
  new _ _ _ h := absurd h List.not_mem_nil
  sound _ h := absurd h List.not_mem_nil

theorem Session.Traced.save {db : Db} {s : Session} (h : s.Traced db) {c : Call}
    (hdims : DimsFit c.csiStatus.nr.toNat c.csiStatus.nc.toNat c.csiStatus.numTones.toNat) :
    ∃ s', s.save c = some s' ∧ s'.log.map CallLog.call = s.log.map CallLog.call ++ [c] ∧ s'.Traced db := by
  obtain ⟨returned, conn', server, statusAdded, dataAdded, hrun, heff⟩ := saveCsi_effect hdims s.conn s.server
  -- The rows of this call have keys from the sequence on, all other rows have keys below it.
  have hlt : ∀ old ∈ s.server.db.status.rows, ∀ row ∈ statusAdded, old.id < row.id := fun old hold row hrow =>
    lt_of_lt_of_le (s.server.db.status.lt_next old hold) (heff.fresh row hrow)
  refine ⟨_, Session.save_of_run hrun heff.status heff.data, ?_, ?_, ?_, ?_, ?_, ?_⟩
  · rw [List.map_append, List.map_singleton]
  · rw [heff.status, h.status, List.flatMap_append, List.flatMap_singleton, List.append_assoc]
  · rw [heff.data, h.data, List.flatMap_append, List.flatMap_singleton, List.append_assoc]
  · rw [List.flatMap_append, List.flatMap_singleton, List.pairwise_append]
    refine ⟨h.distinct, ?_, fun old hold row hrow => hlt old (h.status ▸ List.mem_append_right _ hold) row hrow⟩
    rcases statusAdded with _ | ⟨row, _ | _⟩
    · exact .nil
    · exact List.pairwise_singleton _ _
    · exact absurd heff.single (by simp)
  · intro old hold row hrow
    rw [List.flatMap_append, List.flatMap_singleton, List.mem_append] at hrow
    rcases hrow with hrow | hrow
    · exact h.new old hold row hrow
    · exact hlt old (h.status ▸ List.mem_append_left _ hold) row hrow
  · intro l hl
    rcases List.mem_append.mp hl with hl | hl
    · exact h.sound l hl
    · rw [List.mem_singleton.mp hl]
      exact ⟨heff.single, heff.own, heff.saved⟩

theorem Session.Traced.saveAll {db : Db} (cs : List Call) {s : Session} (h : s.Traced db)
    (hdims : ∀ c ∈ cs, DimsFit c.csiStatus.nr.toNat c.csiStatus.nc.toNat c.csiStatus.numTones.toNat) :
    ∃ s', s.saveAll cs = some s' ∧ s'.log.map CallLog.call = s.log.map CallLog.call ++ cs ∧ s'.Traced db := by
  induction cs generalizing s with
  | nil => exact ⟨s, rfl, (List.append_nil _).symm, h⟩
  | cons c cs ih =>
    obtain ⟨t, hsave, hlog, ht⟩ := h.save (hdims c List.mem_cons_self)
    obtain ⟨s', hall, hlog', hs'⟩ := ih ht fun c hc => hdims c (List.mem_cons_of_mem _ hc)
    refine ⟨s', (Session.saveAll_cons hsave cs).trans hall, ?_, hs'⟩
    rw [hlog', hlog, List.append_assoc, List.singleton_append]

/-- Among all rows that the calls have added, those that name the key of a saved packet are its own. -/
theorem Session.Traced.filter_eq {db : Db} {s : Session} (h : s.Traced db) {l : CallLog} (hl : l ∈ s.log) {row : StatusRow}
    (hrow : l.statusAdded = [row]) :
    (s.log.flatMap CallLog.dataAdded).filter (fun d => d.cell .statusId = some (.int row.id)) = l.dataAdded := by
  obtain ⟨before, after, hlog⟩ := List.append_of_mem hl
  have hdistinct := h.distinct
  rw [hlog, List.flatMap_append, List.flatMap_cons, hrow, List.singleton_append, List.pairwise_append,
    List.pairwise_cons] at hdistinct
  obtain ⟨-, ⟨hafter, -⟩, hbefore⟩ := hdistinct
  -- A row of another call names the status of that call, whose key is another one.
  have hother : ∀ {ls : List CallLog}, (∀ l' ∈ ls, l' ∈ s.log) → (∀ r ∈ ls.flatMap CallLog.statusAdded, r.id ≠ row.id) →
      (ls.flatMap CallLog.dataAdded).filter (fun d => d.cell .statusId = some (.int row.id)) = [] := by
    intro ls hls hne
    rw [List.filter_eq_nil_iff]
    intro d hd
    obtain ⟨l', hl', hd⟩ := List.mem_flatMap.mp hd
    obtain ⟨r, hr, hid⟩ := (h.sound l' (hls l' hl')).own d hd
    have hne := hne r (List.mem_flatMap.mpr ⟨l', hl', hr ▸ List.mem_singleton_self r⟩)
    simp only [hid, decide_eq_true_eq, Option.some.injEq, Cell.int.injEq]
    exact hne
  have hown : l.dataAdded.filter (fun d => d.cell .statusId = some (.int row.id)) = l.dataAdded := by
    rw [List.filter_eq_self]
    intro d hd
    obtain ⟨r, hr, hid⟩ := (h.sound l hl).own d hd
    cases hrow.symm.trans hr
    exact decide_eq_true hid
  rw [hlog, List.flatMap_append, List.flatMap_cons, List.filter_append, List.filter_append, hown,
    hother (fun l' hl' => hlog ▸ List.mem_append_left _ hl')
      (fun r hr => (hbefore r hr row List.mem_cons_self).ne),
    hother (fun l' hl' => hlog ▸ List.mem_append_right _ (List.mem_cons_of_mem _ hl'))
      (fun r hr => (hafter r hr).ne'), List.nil_append, List.append_nil]

/-- The tables after some calls, next to those before: which rows are new, and that each belongs to the
    packet that it names. -/
structure Linked (db : Db) (s : Session) : Prop where
  status : s.server.db.status.rows = db.status.rows ++ s.log.flatMap CallLog.statusAdded
  data : s.server.db.data.rows = db.data.rows ++ s.log.flatMap CallLog.dataAdded
  -- A call that returned 1 has one new status with the fields of its packet, and one new row of data for each
  -- pair of antenna and subcarrier.
  saved : ∀ l ∈ s.log, l.returned = 1 → ∃ id, l.statusAdded = [⟨id, statusCells l.call.csiStatus⟩] ∧
    (s.log.flatMap CallLog.dataAdded).filter (fun d => d.cell .statusId = some (.int id)) = l.dataAdded ∧
    l.dataAdded.length = l.call.csiStatus.numTones.toNat * l.call.csiStatus.nr.toNat ∧
    l.dataAdded.map Row.cell = (positions l.call.csiStatus.nr.toNat l.call.csiStatus.numTones.toNat).map
      (dataCells id l.call.csiStatus l.call.csiMatrix)
  -- A row of data names the status that its own call has added, and no other row of `csi_status` has that key.
  own : ∀ l ∈ s.log, ∀ d ∈ l.dataAdded, ∃ row, l.statusAdded = [row] ∧ d.cell .statusId = some (.int row.id) ∧
    (s.server.db.status.rows.filter fun r => r.id = row.id) = [row]

theorem Session.Traced.linked {db : Db} {s : Session} (h : s.Traced db) : Linked db s where
  status := h.status
  data := h.data
  saved l hl hret := by
    obtain ⟨id, hstatus, hdata⟩ := (h.sound l hl).saved hret
    have hlen := congrArg List.length hdata
    rw [List.length_map, dataRows, List.length_map, length_positions] at hlen
    exact ⟨id, hstatus, h.filter_eq hl hstatus, hlen, hdata⟩
  own l hl d hd := by
    obtain ⟨row, hstatus, hid⟩ := (h.sound l hl).own d hd
    refine ⟨row, hstatus, hid, ?_⟩
    have hmem : row ∈ s.log.flatMap CallLog.statusAdded :=
      List.mem_flatMap.mpr ⟨l, hl, hstatus ▸ List.mem_singleton_self row⟩
    obtain ⟨before, after, hsplit⟩ := List.append_of_mem hmem
    have hdistinct := h.distinct
    rw [hsplit, List.pairwise_append, List.pairwise_cons] at hdistinct
    obtain ⟨-, ⟨hafter, -⟩, hbefore⟩ := hdistinct
    have hnone : ∀ {rs : List StatusRow}, (∀ r ∈ rs, r.id ≠ row.id) → (rs.filter fun r => r.id = row.id) = [] := fun hne =>
      List.filter_eq_nil_iff.mpr fun r hr => by rw [decide_eq_true_eq]; exact hne r hr
    rw [h.status, hsplit, List.filter_append, List.filter_append, List.filter_cons_of_pos (by simp),
      hnone fun r hr => (h.new r hr row hmem).ne, hnone fun r hr => (hbefore r hr row List.mem_cons_self).ne,
      hnone fun r hr => (hafter r hr).ne']
    rfl

/-- Whatever the server refuses, the calls of one receiver link every row to its own packet. -/
theorem saveAll_linked (conn : Bool) (server : Server) (cs : List Call)
    (hdims : ∀ c ∈ cs, DimsFit c.csiStatus.nr.toNat c.csiStatus.nc.toNat c.csiStatus.numTones.toNat) :
    ∃ s, Session.saveAll ⟨conn, server, []⟩ cs = some s ∧ s.log.map CallLog.call = cs ∧ Linked server.db s := by
  obtain ⟨s, hall, hlog, hs⟩ := (Session.Traced.start conn server).saveAll cs hdims
  exact ⟨s, hall, hlog, hs.linked⟩

def oneCall : Call := ⟨{ CsiStruct.zero with nr := 1, nc := 1, numTones := 1 }, CsiMatrix.zero⟩

/-- A server that refuses the second INSERT of a call. -/
def noDataServer : Server := ⟨Db.empty, fun n => ⟨n = 2, 0⟩⟩

theorem saveCsi_rows_noDataServer :
    ∃ returned conn' s', (saveCsi true oneCall.csiStatus oneCall.csiMatrix).run Server.exec noDataServer =
        some ((returned, conn'), s') ∧ (returned = 0 ∨ returned = 1) ∧
      (returned = 0 → s'.db.data.rows = [] ∧ s'.db.status.rows = [⟨1, statusCells oneCall.csiStatus⟩]) := by
  obtain ⟨returned, conn', s', hrun, hret, hzero, -⟩ :=
    saveCsi_rows true noDataServer oneCall (by decide) (by decide) (by decide)
  exact ⟨returned, conn', s', hrun, hret, fun h => ⟨(hzero h).1, (hzero h).2.2 ⟨rfl, by decide⟩⟩⟩

/-- Where the server refuses the rows of the matrix, the call returns 0 and leaves its status behind. -/
theorem saveCsi_leaves_status :
    ∃ conn' s', (saveCsi true oneCall.csiStatus oneCall.csiMatrix).run Server.exec noDataServer = some ((0, conn'), s') ∧
      s'.db.data.rows = [] ∧ s'.db.status.rows = [⟨1, statusCells oneCall.csiStatus⟩] ∧
      s'.db.status.rows ≠ noDataServer.db.status.rows := by
  have htakes : noDataServer.TakesStatus oneCall.csiStatus := by decide
  have hnot : ¬ ((noDataServer.withStatus oneCall.csiStatus).after (noDataServer.withStatus oneCall.csiStatus).db).TakesData
      oneCall.csiStatus := fun h => absurd h.1 (by decide)
  have hid : -(2 ^ 31) ≤ (1 : ℤ) ∧ (1 : ℤ) < 2 ^ 31 := by decide
  obtain ⟨data, hrun, hrows⟩ := run_dataStage_of_not_takes (c := oneCall) (by decide) hid (by decide) hnot
  refine ⟨false, _, (run_saveCsi_of_takes htakes).trans hrun, hrows, rfl, ?_⟩
  exact List.cons_ne_nil _ _

/-- A server that refuses the sixth statement, the second INSERT of the second call. -/
def laterServer : Server := ⟨Db.empty, fun n => ⟨n = 5, 0⟩⟩

/-- Two packets, where the server refuses the data of the second one: the first call returns 1, and its row of data
    names its status. -/
theorem saveAll_linked_two :
    ∃ s, Session.saveAll ⟨true, laterServer, []⟩ [oneCall, oneCall] = some s ∧
      s.log.map CallLog.returned = [1, 0] ∧ s.server.db.status.rows.map Row.id = [1, 2] ∧
      s.server.db.data.rows.map (fun d => d.cell .statusId) = [some (.int 1)] ∧
      s.log.map CallLog.call = [oneCall, oneCall] ∧ Linked Db.empty s := by
  have hrows : (Session.saveAll ⟨true, laterServer, []⟩ [oneCall, oneCall]).map (fun s =>
      (s.log.map CallLog.returned, s.server.db.status.rows.map Row.id, s.server.db.data.rows.map fun d => d.cell .statusId)) =
        some ([1, 0], [1, 2], [some (.int 1)]) := by decide +kernel
  obtain ⟨s, hall, hcalls, hlinked⟩ := saveAll_linked true laterServer [oneCall, oneCall] fun c hc => by
    rcases List.mem_pair.mp hc with rfl | rfl <;> decide
  rw [hall] at hrows
  obtain ⟨hreturned, hrows⟩ := Prod.mk.inj (Option.some.inj hrows)
  obtain ⟨hstatus, hdata⟩ := Prod.mk.inj hrows
  exact ⟨s, hall, hreturned, hstatus, hdata, hcalls, hlinked⟩

end AtherosCsi
