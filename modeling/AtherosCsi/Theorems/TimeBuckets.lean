import AtherosCsi.Theorems.Subcarriers
import AtherosCsi.Lib.Buckets

/-! `test_time_mean` distributes the packets of a trace over seconds, tenths and hundredths of a second. Each level counts
    from the bucket of the first packet, so bucket `i` of a level holds the packets of one interval of the clock, and
    the intervals of the three levels nest. -/

namespace AtherosCsi
open MatArray Loop

variable {α : Type}

/-! ### What the buckets of a trace have to be -/

/-- The cells of one level of a trace with the given time stamps and rows: the script only uses indices of the cell
    array that it made, which therefore keeps its size, each cell holds the rows of its interval in order, and one
    behind the other they are the trace. -/
structure Bucketed (width first last : ℕ) (ts : List ℕ) (rows : List (List α)) (cells : List (Mat α)) : Prop where
  index : ∀ t ∈ ts, 1 ≤ timeIndex width first t ∧ timeIndex width first t ≤ (timeCells width first last : List (Mat α)).length
  size : cells.length = (timeCells width first last : List (Mat α)).length
  bucket : ∀ (i : ℕ) a, cells[i]? = some a →
    a.rows = ((ts.zip rows).filter fun r => timeIndex width first r.1 = i + 1).map (·.2)
  joined : cells.flatMap (·.rows) = rows
  total : (cells.map fun a => a.rows.length).sum = rows.length

/-- Each coarse bucket is the concatenation of the fine buckets, ten times as narrow, that lie in its interval. -/
def Nested (width first : ℕ) (coarse fine : List (Mat α)) : Prop :=
  ∀ (i : ℕ) a, coarse[i]? = some a →
    a.rows = (fine.zipIdx.filter fun c => (first / width + c.2) / 10 = first / (10 * width) + i).flatMap (·.1.rows)

/-! ### One level -/

/-- The time stamps and the rows of a trace whose time stamps never decrease. -/
structure Timed (first last : ℕ) (ts : List ℕ) (rows : List (List α)) : Prop where
  length_eq : ts.length = rows.length
  sorted : ts.Pairwise (· ≤ ·)
  first_le : ∀ t ∈ ts, first ≤ t
  le_last : ∀ t ∈ ts, t ≤ last

/-- The rows with the numbers of their buckets, counted from 0. -/
def numbered (width first : ℕ) (ts : List ℕ) (rows : List (List α)) : List (ℕ × List α) :=
  (ts.zip rows).map fun r => (r.1 / width - first / width, r.2)

theorem timeIndex_of_le {width first t : ℕ} (h : first ≤ t) :
    timeIndex width first t = ((t / width - first / width : ℕ) : ℤ) + 1 := by
  have := Nat.div_le_div_right (c := width) h
  rw [timeIndex]
  omega

theorem timeCells_eq {first last : ℕ} (width : ℕ) (h : first ≤ last) :
    timeCells width first last = List.replicate (last / width - first / width + 1) (Mat.empty : Mat α) := by
  have := Nat.div_le_div_right (c := width) h
  rw [timeCells]
  congr 1
  omega

theorem filter_numbered (width first : ℕ) (ts : List ℕ) (rows : List (List α)) (p : ℕ → Bool) :
    ((numbered width first ts rows).filter fun r => p r.1).map (·.2) =
      ((ts.zip rows).filter fun r => p (r.1 / width - first / width)).map (·.2) := by
  rw [numbered, List.filter_map, List.map_map]
  rfl

theorem flatMap_zipIdx_rows (cells : List (Mat α)) : cells.zipIdx.flatMap (·.1.rows) = cells.flatMap (·.rows) := by
  rw [← List.zipIdx_map_fst 0 cells, List.flatMap_map, List.zipIdx_map_fst]

section Level
variable {first last tones : ℕ} {ts : List ℕ} {rows : List (List α)} (h : Timed first last ts rows) (width : ℕ)
include h

theorem Timed.first_le_of_mem_zip {r : ℕ × List α} (hr : r ∈ ts.zip rows) : first ≤ r.1 :=
  h.first_le r.1 (List.of_mem_zip hr).1

theorem Timed.number_lt {t : ℕ} (ht : t ∈ ts) : t / width - first / width < last / width - first / width + 1 := by
  have := Nat.div_le_div_right (c := width) (h.le_last t ht)
  omega

theorem Timed.lt : ∀ r ∈ numbered width first ts rows, r.1 < last / width - first / width + 1 := by
  intro r hr
  obtain ⟨x, hx, rfl⟩ := List.mem_map.mp hr
  exact h.number_lt width (List.of_mem_zip hx).1

theorem Timed.pairwise : (numbered width first ts rows).Pairwise fun x y => x.1 ≤ y.1 := by
  have hsorted := h.sorted
  rw [← List.map_fst_zip (le_of_eq h.length_eq), List.pairwise_map] at hsorted
  rw [numbered, List.pairwise_map]
  refine hsorted.imp fun {x y} hxy => ?_
  have := Nat.div_le_div_right (c := width) hxy
  simp only
  omega

theorem Timed.bucketed (hle : first ≤ last) {cells : List (Mat α)}
    (hfilled : Filled (last / width - first / width + 1) tones (numbered width first ts rows) cells) :
    Bucketed width first last ts rows cells := by
  have hsize : cells.length = (timeCells width first last : List (Mat α)).length := by
    rw [hfilled.length_eq, timeCells_eq width hle, List.length_replicate]
  have hjoined : cells.flatMap (·.rows) = rows := by
    have hall := hfilled.flatMap_filter (h.pairwise width) (h.lt width) fun _ => true
    rw [filter_numbered width first ts rows fun _ => true, List.filter_true, List.filter_true, flatMap_zipIdx_rows] at hall
    rw [hall, List.map_snd_zip (le_of_eq h.length_eq.symm)]
  refine ⟨fun t ht => ?_, hsize, fun i a ha => ?_, hjoined, ?_⟩
  · have hlt := h.number_lt width ht
    rw [timeIndex_of_le (h.first_le t ht), ← hsize, hfilled.length_eq]
    omega
  · rw [(hfilled.cell i a ha).2, filter_numbered width first ts rows fun k => k = i]
    refine congrArg (List.map _) (List.filter_congr fun r hr => ?_)
    rw [timeIndex_of_le (h.first_le_of_mem_zip hr), decide_eq_decide]
    omega
  · rw [← List.length_flatMap, hjoined]

theorem Timed.nested {n : ℕ} {coarse fine : List (Mat α)}
    (hcoarse : Filled n tones (numbered (10 * width) first ts rows) coarse)
    (hfine : Filled (last / width - first / width + 1) tones (numbered width first ts rows) fine) :
    Nested width first coarse fine := by
  intro i a ha
  rw [(hcoarse.cell i a ha).2, filter_numbered (10 * width) first ts rows fun k => k = i,
    hfine.flatMap_filter (h.pairwise width) (h.lt width) fun j => (first / width + j) / 10 = first / (10 * width) + i,
    filter_numbered width first ts rows fun j => (first / width + j) / 10 = first / (10 * width) + i]
  refine congrArg (List.map _) (List.filter_congr fun r hr => ?_)
  have hle := h.first_le_of_mem_zip hr
  have hwidth := Nat.div_le_div_right (c := width) hle
  have hwide := Nat.div_le_div_right (c := 10 * width) hle
  have hten : r.1 / width / 10 = r.1 / (10 * width) := by rw [Nat.div_div_eq_div_mul, Nat.mul_comm]
  rw [Nat.add_sub_cancel' hwidth, hten, decide_eq_decide]
  omega

/-- The script puts a row into the cell of its interval. -/
theorem Timed.append {k t : ℕ} {v : List α} {cells : List (Mat α)} (ht : ts[k]? = some t) (hv : rows[k]? = some v)
    (htones : v.length = tones)
    (hfilled : Filled (last / width - first / width + 1) tones (numbered width first (ts.take k) (rows.take k)) cells) :
    ∃ cells', appendAt? cells (timeIndex width first t) v = some cells' ∧
      Filled (last / width - first / width + 1) tones (numbered width first (ts.take (k + 1)) (rows.take (k + 1)))
        cells' := by
  obtain ⟨cells', hcells, hnext⟩ := hfilled.append (h.number_lt width (List.mem_of_getElem? ht)) htones
  have hlen : (ts.take k).length = (rows.take k).length := by
    rw [List.length_take, List.length_take, h.length_eq]
  have htake : numbered width first (ts.take (k + 1)) (rows.take (k + 1)) =
      numbered width first (ts.take k) (rows.take k) ++ [(t / width - first / width, v)] := by
    rw [List.take_add_one, List.take_add_one, ht, hv, numbered, numbered, Option.toList_some, Option.toList_some,
      List.zip_append hlen, List.map_append]
    rfl
  rw [timeIndex_of_le (h.first_le t (List.mem_of_getElem? ht)), htake]
  exact ⟨cells', hcells, hnext⟩

end Level

theorem head_le_of_sorted {first : ℕ} {ts : List ℕ} (hsorted : ts.Pairwise (· ≤ ·)) (h : ts.head? = some first) :
    ∀ t ∈ ts, first ≤ t := by
  obtain ⟨rest, rfl⟩ := List.head?_eq_some_iff.mp h
  intro t ht
  rcases List.mem_cons.mp ht with rfl | ht
  · exact Nat.le_refl _
  · exact (List.pairwise_cons.mp hsorted).1 t ht

theorem le_getLast_of_sorted {last : ℕ} {ts : List ℕ} (hsorted : ts.Pairwise (· ≤ ·)) (h : ts.getLast? = some last) :
    ∀ t ∈ ts, t ≤ last := by
  obtain ⟨front, rfl⟩ := List.getLast?_eq_some_iff.mp h
  intro t ht
  rcases List.mem_append.mp ht with ht | ht
  · exact (List.pairwise_append.mp hsorted).2.2 t ht last List.mem_cons_self
  · exact Nat.le_of_eq (List.mem_singleton.mp ht)

/-! ### All levels -/

section Script
variable {first last : ℕ} {ts : List ℕ} {rows : List (List α)}

/-- The three cell arrays after the first `k` records. -/
structure LevelsFilled (first last tones : ℕ) (ts : List ℕ) (rows : List (List α)) (d : TimeData α) : Prop where
  sec : Filled (last / 10 ^ 6 - first / 10 ^ 6 + 1) tones (numbered (10 ^ 6) first ts rows) d.secData
  dsec : Filled (last / 10 ^ 5 - first / 10 ^ 5 + 1) tones (numbered (10 ^ 5) first ts rows) d.dsecData
  csec : Filled (last / 10 ^ 4 - first / 10 ^ 4 + 1) tones (numbered (10 ^ 4) first ts rows) d.csecData

theorem levelsFilled_start (tones : ℕ) (h : first ≤ last) :
    LevelsFilled first last tones [] ([] : List (List α))
      ⟨timeCells (10 ^ 6) first last, timeCells (10 ^ 5) first last, timeCells (10 ^ 4) first last⟩ where
  sec := timeCells_eq (α := α) (10 ^ 6) h ▸ filled_nil _ _
  dsec := timeCells_eq (α := α) (10 ^ 5) h ▸ filled_nil _ _
  csec := timeCells_eq (α := α) (10 ^ 4) h ▸ filled_nil _ _

theorem timeStep_filled (h : Timed first last ts rows) {csiData : Mat α} (hrows : csiData.rows = rows) {k t : ℕ}
    {e : LogEntry (Array3 α)} (ht : ts[k]? = some t) (he : e.timestamp = some t) {d : TimeData α}
    (hd : LevelsFilled first last csiData.cols (ts.take k) (rows.take k) d) :
    ∃ d', timeStep first csiData d (e, k + 1) = some d' ∧
      LevelsFilled first last csiData.cols (ts.take (k + 1)) (rows.take (k + 1)) d' := by
  have hk : k < rows.length := h.length_eq ▸ (List.getElem?_eq_some_iff.mp ht).1
  have hv : rows[k]? = some rows[k] := List.getElem?_eq_getElem hk
  have hrow : csiData.row? (k + 1) = some rows[k] := by
    rw [Mat.row?, if_pos (Nat.le_add_left 1 k), Nat.add_sub_cancel, hrows, hv]
  have hwidth : rows[k].length = csiData.cols := csiData.rect _ (hrows ▸ List.getElem_mem hk)
  obtain ⟨sec, hsec, hsec'⟩ := h.append (10 ^ 6) ht hv hwidth hd.sec
  obtain ⟨dsec, hdsec, hdsec'⟩ := h.append (10 ^ 5) ht hv hwidth hd.dsec
  obtain ⟨csec, hcsec, hcsec'⟩ := h.append (10 ^ 4) ht hv hwidth hd.csec
  refine ⟨⟨sec, dsec, csec⟩, ?_, hsec', hdsec', hcsec'⟩
  rw [timeStep]
  simp only [he, hrow, hsec, hdsec, hcsec, Option.bind_eq_bind, Option.bind_some]
  rfl

theorem time_loop (h : Timed first last ts rows) (hle : first ≤ last) {csi : Trace α}
    (hts : csi.map (·.timestamp) = ts.map some) {csiData : Mat α} (hrows : csiData.rows = rows) :
    ∃ d, (csi.zipIdx 1).foldlM (timeStep first csiData)
        ⟨timeCells (10 ^ 6) first last, timeCells (10 ^ 5) first last, timeCells (10 ^ 4) first last⟩ = some d ∧
      LevelsFilled first last csiData.cols ts rows d := by
  have hlen : csi.length = ts.length := by simpa using congrArg List.length hts
  let P : List (LogEntry (Array3 α) × ℕ) → TimeData α → Prop := fun pre d =>
    LevelsFilled first last csiData.cols (ts.take pre.length) (rows.take pre.length) d
  have h0 : P [] ⟨timeCells (10 ^ 6) first last, timeCells (10 ^ 5) first last, timeCells (10 ^ 4) first last⟩ :=
    levelsFilled_start csiData.cols hle
  have hstep : ∀ pre r d, pre ++ [r] <+: csi.zipIdx 1 → P pre d →
      ∃ d', timeStep first csiData d r = some d' ∧ P (pre ++ [r]) d' := by
    rintro pre ⟨e, i⟩ d ⟨post, hpost⟩ hd
    -- the record behind those of `pre`
    have hget : (csi.zipIdx 1)[pre.length]? = some (e, i) := by simp [← hpost]
    rw [List.getElem?_zipIdx, Option.map_eq_some_iff] at hget
    obtain ⟨e', he', hpair⟩ := hget
    obtain ⟨rfl, rfl⟩ := Prod.mk.inj hpair
    have hstamp : (csi.map (·.timestamp))[pre.length]? = some e'.timestamp := by rw [List.getElem?_map, he']; rfl
    rw [hts, List.getElem?_map, Option.map_eq_some_iff] at hstamp
    obtain ⟨t, ht, hte⟩ := hstamp
    have hnext := timeStep_filled h hrows ht hte.symm hd
    simpa only [P, List.length_append, List.length_singleton, Nat.add_comm 1] using hnext
  obtain ⟨d, hd, hfilled⟩ := foldlM_rule h0 hstep
  have hfull : (csi.zipIdx 1).length = ts.length := by rw [List.length_zipIdx, hlen]
  have hts' : ts.take (csi.zipIdx 1).length = ts := by rw [hfull, List.take_length]
  have hrows' : rows.take (csi.zipIdx 1).length = rows := by rw [hfull, h.length_eq, List.take_length]
  simp only [P, hts', hrows'] at hfilled
  exact ⟨d, hd, hfilled⟩

/-- The first and the last record have the first and the last time stamp, between which all others lie. -/
theorem exists_timed {csi : Trace α} (hne : csi ≠ []) (hts : csi.map (·.timestamp) = ts.map some)
    (hsorted : ts.Pairwise (· ≤ ·)) (hrows : rows.length = csi.length) :
    ∃ e e' first last, (csi.head? = some e ∧ e.timestamp = some first ∧ ts.head? = some first) ∧
      (csi.getLast? = some e' ∧ e'.timestamp = some last ∧ ts.getLast? = some last) ∧ Timed first last ts rows := by
  have hhead := List.head?_eq_some_head hne
  have hheads := congrArg List.head? hts
  rw [List.head?_map, List.head?_map, hhead] at hheads
  obtain ⟨first, hfirst, hstamp⟩ := Option.map_eq_some_iff.mp hheads.symm
  have hend := List.getLast?_eq_some_getLast hne
  have hends := congrArg List.getLast? hts
  rw [List.getLast?_map, List.getLast?_map, hend] at hends
  obtain ⟨last, hlast, hstamp'⟩ := Option.map_eq_some_iff.mp hends.symm
  have hlen : ts.length = csi.length := by simpa using (congrArg List.length hts).symm
  exact ⟨_, _, first, last, ⟨hhead, hstamp.symm, hfirst⟩, ⟨hend, hstamp'.symm, hlast⟩, hlen.trans hrows.symm, hsorted,
    head_le_of_sorted hsorted hfirst, le_getLast_of_sorted hsorted hlast⟩

variable [Zero α]

/-- For a trace of which `subcarrier_pertime` keeps every record, with at least two tones and time stamps that never
    decrease, the buckets of each level partition the trace, and the levels nest. -/
theorem testTimeMean_nested (readLogFile : List Char → Option (Trace α)) (filePath : List Char) (csi : Trace α)
    (hread : readLogFile filePath = some csi) (s : Array4 α) (hs : subcarrierPertime csi = some s)
    (hall : s.blocks.length = csi.length) (htones : ∀ e ∈ csi, 2 ≤ (csiDataOf e).pages) (ts : List ℕ)
    (hts : csi.map (·.timestamp) = ts.map some) (hsorted : ts.Pairwise (· ≤ ·)) (rx tx : ℕ) (hrx : 1 ≤ rx ∧ rx ≤ 3)
    (htx : 1 ≤ tx ∧ tx ≤ 3) :
    ∃ first last d, ts.head? = some first ∧ ts.getLast? = some last ∧
      testTimeMean readLogFile filePath rx tx = some (.data d) ∧
      let rows := csi.map fun e => (csiDataOf e).line rx tx
      Bucketed (10 ^ 6) first last ts rows d.secData ∧ Bucketed (10 ^ 5) first last ts rows d.dsecData ∧
        Bucketed (10 ^ 4) first last ts rows d.csecData ∧ Nested (10 ^ 5) first d.secData d.dsecData ∧
        Nested (10 ^ 4) first d.dsecData d.csecData := by
  have hkept := kept_eq_of_length hs hall
  have hne : csi ≠ [] := by
    rintro rfl
    cases hs
  obtain ⟨e, he⟩ := List.exists_mem_of_ne_nil csi hne
  have hpages : 2 ≤ s.pages := pages_of_mem_kept hs (hkept.symm ▸ he) ▸ htones e he
  obtain ⟨csiData, hlines, -, hrows⟩ := lines?_subcarrierPertime hs hrx htx hpages
  rw [toneRows, hkept] at hrows
  obtain ⟨e₀, e₁, first, last, ⟨hhead, hstamp, hfirst⟩, ⟨hend, hstamp', hlast⟩, htimed⟩ :=
    exists_timed hne hts hsorted (List.length_map fun e => (csiDataOf e).line rx tx)
  have hle : first ≤ last := htimed.le_last first (List.mem_of_mem_head? hfirst)
  obtain ⟨d, hd, hfilled⟩ := time_loop htimed hle hts hrows
  refine ⟨first, last, d, hfirst, hlast, ?_, htimed.bucketed _ hle hfilled.sec, htimed.bucketed _ hle hfilled.dsec,
    htimed.bucketed _ hle hfilled.csec, htimed.nested _ hfilled.sec hfilled.dsec, htimed.nested _ hfilled.dsec hfilled.csec⟩
  have hsize : csi.length = csiData.rows.length := by rw [hrows, List.length_map]
  rw [testTimeMean]
  simp only [hread, hs, hlines, hhead, hend, hstamp, hstamp', hd, Option.bind_eq_bind, Option.bind_some]
  rw [if_neg (not_not.mpr hsize)]
  rfl

end Script

/-- Three packets on both sides of a full second. -/
theorem testTimeMean_nested_three :
    let entry : ℕ → ℤ → LogEntry (Array3 ℤ) := fun t x => ⟨⟨some t, some 45, some 2437, some 0, some 0, some 139, some 0, some 2,
      some 3, some 3, some 40, some 38, some 36, some 35, some 0⟩, .array ⟨3, 3, 2, fun _ _ k => x + k⟩, .zero⟩
    let csi : Trace ℤ := [entry 1950000 1, entry 1999999 2, entry 2010000 3]
    let ts := [1950000, 1999999, 2010000]
    ∃ first last d, ts.head? = some first ∧ ts.getLast? = some last ∧
      testTimeMean (fun _ => some csi) "trace".toList 1 3 = some (.data d) ∧
      let rows := csi.map fun e => (csiDataOf e).line 1 3
      Bucketed (10 ^ 6) first last ts rows d.secData ∧ Bucketed (10 ^ 5) first last ts rows d.dsecData ∧
        Bucketed (10 ^ 4) first last ts rows d.csecData ∧ Nested (10 ^ 5) first d.secData d.dsecData ∧
        Nested (10 ^ 4) first d.dsecData d.csecData := by
  intro entry csi ts
  have hsome : (subcarrierPertime csi).isSome = true := by decide
  exact testTimeMean_nested (fun _ => some csi) "trace".toList csi rfl ((subcarrierPertime csi).get hsome)
    (Option.some_get hsome).symm rfl (by simp [csi, entry, csiDataOf]) ts rfl (by decide) 1 3 (by decide) (by decide)

end AtherosCsi
