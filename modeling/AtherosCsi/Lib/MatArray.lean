import Mathlib.Data.Int.Order.Basic
import Mathlib.Data.List.FinRange
import Mathlib.Data.List.OfFn
import Mathlib.Tactic.Ring

/-! Arrays as MATLAB has them, for scripts that collect measurements. Indices start at 1, an array grows where a
    script writes behind its end, and an operation that MATLAB refuses gives `none`. -/

namespace MatArray
variable {α : Type}

/-! ### Matrices -/

structure Mat (α : Type) where
  cols : ℕ
  rows : List (List α)
  rect : ∀ r ∈ rows, r.length = cols

namespace Mat

/-- `[]` -/
def empty : Mat α := ⟨0, [], by simp⟩

def row (v : List α) : Mat α := ⟨v.length, [v], by simp⟩

def isEmpty (a : Mat α) : Bool := a.rows.isEmpty && a.cols == 0

/-- `cat(1, a, b)`, which leaves out `[]`. -/
def vertcat? (a b : Mat α) : Option (Mat α) :=
  if a.isEmpty then some b
  else if b.isEmpty then some a
  else if h : a.cols = b.cols then
    some ⟨b.cols, a.rows ++ b.rows, fun r hr => (List.mem_append.mp hr).elim (fun ha => h ▸ a.rect r ha) (b.rect r)⟩
  else none

/-- `a(i,:)` -/
def row? (a : Mat α) (i : ℕ) : Option (List α) := if 1 ≤ i then a.rows[i - 1]? else none

theorem rect_append {a : Mat α} {v : List α} (h : v.length = a.cols) : ∀ r ∈ a.rows ++ [v], r.length = a.cols := by
  intro r hr
  rcases List.mem_append.mp hr with hr | hr
  · exact a.rect r hr
  · rw [List.mem_singleton.mp hr, h]

/-- `a(end+1,:) = v`. `[]` takes the width of the row, and a single number stands for a row of it. -/
def appendRow? (a : Mat α) (v : List α) : Option (Mat α) :=
  if a.isEmpty then some (row v)
  else if h : v.length = a.cols then some ⟨a.cols, a.rows ++ [v], rect_append h⟩
  else
    match v with
    | [x] => some ⟨a.cols, a.rows ++ [List.replicate a.cols x], rect_append List.length_replicate⟩
    | _ => none

def takeRows (a : Mat α) (n : ℕ) : Mat α := ⟨a.cols, a.rows.take n, fun r hr => a.rect r (List.mem_of_mem_take hr)⟩

/-- `a([1:n],:)` -/
def takeRows? (a : Mat α) (n : ℕ) : Option (Mat α) := if n ≤ a.rows.length then some (a.takeRows n) else none

/-- `a([end+1:n],:) = 0` -/
def padRows [Zero α] (a : Mat α) (n : ℕ) : Mat α :=
  ⟨a.cols, a.rows ++ List.replicate (n - a.rows.length) (List.replicate a.cols 0), fun r hr => by
    rcases List.mem_append.mp hr with hr | hr
    · exact a.rect r hr
    · rw [List.eq_of_mem_replicate hr, List.length_replicate]⟩

/-- What a matrix stands for where a region of the given size is assigned: a single number fills it. -/
def expand (a : Mat α) (height width : ℕ) : Mat α :=
  match a.rows with
  | [[x]] => ⟨width, List.replicate height (List.replicate width x), fun r hr => by
      rw [List.eq_of_mem_replicate hr, List.length_replicate]⟩
  | _ => a

end Mat

/-! ### Arrays with more dimensions -/

structure Array3 (α : Type) where
  rows : ℕ
  cols : ℕ
  pages : ℕ
  elem : Fin rows → Fin cols → Fin pages → α

namespace Array3

/-- A number is an array with one element. -/
def scalar (x : α) : Array3 α := ⟨1, 1, 1, fun _ _ _ => x⟩

/-- `reshape(a, 1, numel(a))`: the elements in column-major order. -/
def vector (a : Array3 α) : List α :=
  (List.finRange a.pages).flatMap fun k => (List.finRange a.cols).flatMap fun j =>
    (List.finRange a.rows).map fun i => a.elem i j k

/-- The elements `a(r,c,:)`. -/
def line (a : Array3 α) (r c : ℕ) : List α :=
  if h : (1 ≤ r ∧ r ≤ a.rows) ∧ 1 ≤ c ∧ c ≤ a.cols then
    List.ofFn (a.elem ⟨r - 1, by omega⟩ ⟨c - 1, by omega⟩)
  else []

/-- `a(:,1:n,:)` -/
def firstCols? (a : Array3 α) (n : ℕ) : Option (Array3 α) :=
  if h : n ≤ a.cols then some ⟨a.rows, n, a.pages, fun r c k => a.elem r (c.castLE h) k⟩ else none

/-- The last place at which a list of numbers has `c`. -/
def lastPlace? (idx : List ℕ) (c : ℕ) : Option (Fin idx.length) :=
  (List.finRange idx.length).reverse.find? fun j => idx.get j = c

/-- `a(:,idx,:) = b`. Where a number stands twice in `idx` the later column stays, and columns of zeros come in
    between where the array has to grow. -/
def setCols? [Zero α] (a : Array3 α) (idx : List ℕ) (b : Array3 α) : Option (Array3 α) :=
  if h : (∀ c ∈ idx, 1 ≤ c) ∧ a.rows = b.rows ∧ idx.length = b.cols ∧ a.pages = b.pages then
    some ⟨a.rows, idx.foldl max a.cols, a.pages, fun r c k =>
      match lastPlace? idx (c + 1) with
      | some j => b.elem (r.cast h.2.1) (j.cast h.2.2.1) (k.cast h.2.2.2)
      | none => if hc : (c : ℕ) < a.cols then a.elem r ⟨c, hc⟩ k else 0⟩
  else none

end Array3

/-- An array of four dimensions, as the blocks `a(:,:,:,i)`. -/
structure Array4 (α : Type) where
  rows : ℕ
  cols : ℕ
  pages : ℕ
  blocks : List (Fin rows → Fin cols → Fin pages → α)

namespace Array4

/-- `s(:,:,:,1) = a` where there is no `s` yet. -/
def ofBlock (a : Array3 α) : Array4 α := ⟨a.rows, a.cols, a.pages, [a.elem]⟩

/-- `s(:,:,:,end+1) = a` for an array `a` that is not a single number. -/
def push? (s : Array4 α) (a : Array3 α) : Option (Array4 α) :=
  if h : s.rows = a.rows ∧ s.cols = a.cols ∧ s.pages = a.pages then
    some { s with blocks := s.blocks ++ [fun i j k => a.elem (i.cast h.1) (j.cast h.2.1) (k.cast h.2.2)] }
  else none

/-- `squeeze(s(r,c,:,:)).'`. The third dimension becomes the columns, unless it is 1: then `squeeze` drops it too, and
    the fourth becomes the columns. -/
def lines? (s : Array4 α) (r c : ℕ) : Option (Mat α) :=
  if h : (1 ≤ r ∧ r ≤ s.rows) ∧ 1 ≤ c ∧ c ≤ s.cols then
    let lines := s.blocks.map fun b => List.ofFn (b ⟨r - 1, by omega⟩ ⟨c - 1, by omega⟩)
    if s.pages = 1 then some (Mat.row lines.flatten)
    else some ⟨s.pages, lines, fun v hv => by
      obtain ⟨b, -, rfl⟩ := List.mem_map.mp hv
      exact List.length_ofFn⟩
  else none

end Array4

/-- An array of three dimensions, as the matrices `a(:,:,i)`. -/
structure Slices (α : Type) where
  height : ℕ
  width : ℕ
  slices : List (Mat α)
  same : ∀ a ∈ slices, a.rows.length = height ∧ a.cols = width

namespace Slices

/-- `s(:,:,end+1) = a`, where there may be no `s` yet. -/
def push? (s : Option (Slices α)) (a : Mat α) : Option (Slices α) :=
  match s with
  | none => some ⟨a.rows.length, a.cols, [a], by simp⟩
  | some s =>
    let b := a.expand s.height s.width
    if h : b.rows.length = s.height ∧ b.cols = s.width then
      some { s with
        slices := s.slices ++ [b]
        same := fun m hm => (List.mem_append.mp hm).elim (s.same m) fun hb => List.mem_singleton.mp hb ▸ h }
    else none

/-- `s([1:n],:,:)` -/
def takeRows? (s : Slices α) (n : ℕ) : Option (Slices α) :=
  if h : n ≤ s.height then
    some ⟨n, s.width, s.slices.map (·.takeRows n), fun a ha => by
      obtain ⟨m, hm, rfl⟩ := List.mem_map.mp ha
      obtain ⟨hheight, hwidth⟩ := s.same m hm
      exact ⟨by rw [Mat.takeRows, List.length_take, hheight, Nat.min_eq_left h], hwidth⟩⟩
  else none

end Slices

/-! ### Cell arrays of matrices -/

/-- `cells{i}(end+1,:) = v`: the cell array grows by empty cells where it has to. -/
def appendAt? (cells : List (Mat α)) (i : ℤ) (v : List α) : Option (List (Mat α)) :=
  if 1 ≤ i then do
    let k := (i - 1).toNat
    let a ← (cells[k]?.getD Mat.empty).appendRow? v
    return (cells ++ List.replicate (k + 1 - cells.length) Mat.empty).set k a
  else none

/-! ### What the operations do -/

namespace Mat

theorem isEmpty_iff {a : Mat α} : a.isEmpty = true ↔ a.rows = [] ∧ a.cols = 0 := by
  simp [isEmpty, List.isEmpty_iff]

theorem not_isEmpty_of_rows {a : Mat α} (h : a.rows ≠ []) : ¬ a.isEmpty = true := fun he => h (isEmpty_iff.mp he).1

/-- A row goes on top of a matrix that has rows exactly when it is as wide. -/
theorem vertcat?_row {v : List α} {a : Mat α} (ha : a.rows ≠ []) :
    (v.length = a.cols → ∃ b, (row v).vertcat? a = some b ∧ b.rows = v :: a.rows) ∧
      (v.length ≠ a.cols → (row v).vertcat? a = none) := by
  have hrow : ¬ (row v).isEmpty = true := not_isEmpty_of_rows (by simp [row])
  unfold vertcat?
  rw [if_neg hrow, if_neg (not_isEmpty_of_rows ha)]
  refine ⟨fun h => ?_, fun h => ?_⟩
  · rw [dif_pos (show (row v).cols = a.cols from h)]
    exact ⟨_, rfl, rfl⟩
  · rw [dif_neg (show ¬ (row v).cols = a.cols from h)]

/-- A matrix that takes rows of the given width. -/
def Takes (width : ℕ) (a : Mat α) : Prop := a.isEmpty = true ∨ a.cols = width

theorem takes_empty (width : ℕ) : (empty : Mat α).Takes width := Or.inl rfl

theorem Takes.appendRow {width : ℕ} {a : Mat α} (h : a.Takes width) {v : List α} (hv : v.length = width) :
    ∃ b, a.appendRow? v = some b ∧ b.Takes width ∧ b.rows = a.rows ++ [v] := by
  unfold appendRow?
  by_cases he : a.isEmpty = true
  · rw [if_pos he]
    exact ⟨row v, rfl, Or.inr hv, by rw [(isEmpty_iff.mp he).1]; rfl⟩
  · have hcols : a.cols = width := h.resolve_left he
    rw [if_neg he, dif_pos (hv.trans hcols.symm)]
    exact ⟨_, rfl, Or.inr hcols, rfl⟩

/-- Only a single number expands. -/
theorem expand_of_cols {a : Mat α} (h : a.cols ≠ 1) (height width : ℕ) : a.expand height width = a := by
  unfold expand
  split
  · rename_i x hx
    exact absurd (a.rect [x] (by simp [hx])).symm h
  · rfl

/-- Cutting to `n` rows and padding to at least as many keeps those rows on top. -/
theorem takeRows_padRows [Zero α] {a : Mat α} {n height : ℕ} (hn : n ≤ a.rows.length) (hheight : n ≤ height) :
    ((a.takeRows n).padRows height).rows.length = height ∧
      ((a.takeRows n).padRows height).rows.take n = a.rows.take n := by
  have htop : (a.rows.take n).length = n := List.length_take_of_le hn
  constructor
  · rw [padRows, takeRows, List.length_append, List.length_replicate, htop, Nat.add_sub_cancel' hheight]
  · exact List.take_left' htop

end Mat

theorem Array3.length_vector (a : Array3 α) : a.vector.length = a.pages * (a.cols * a.rows) := by
  simp [vector, List.length_flatMap]

namespace Array3

theorem lastPlace?_eq_some {idx : List ℕ} {c : ℕ} {j : Fin idx.length} (h : lastPlace? idx c = some j) : idx.get j = c := by
  simpa using List.find?_some h

theorem exists_lastPlace? {idx : List ℕ} {c : ℕ} (h : c ∈ idx) : ∃ j, lastPlace? idx c = some j := by
  obtain ⟨i, hi⟩ := List.get_of_mem h
  refine Option.isSome_iff_exists.mp (List.find?_isSome.mpr ⟨i, ?_, by simpa using hi⟩)
  rw [List.mem_reverse]
  exact List.mem_finRange i

theorem le_foldl_max {idx : List ℕ} {c m : ℕ} (h : c ≤ m ∨ c ∈ idx) : c ≤ idx.foldl max m := by
  induction idx generalizing m with
  | nil => simpa using h
  | cons x xs ih =>
    refine ih ?_
    rcases h with h | h
    · exact .inl (h.trans (Nat.le_max_left m x))
    · rcases List.mem_cons.mp h with rfl | h
      · exact .inl (Nat.le_max_right m c)
      · exact .inr h

theorem setCols?_line [Zero α] {a b s : Array3 α} {idx : List ℕ} (h : a.setCols? idx b = some s) {c : ℕ} {j : Fin idx.length}
    (hj : lastPlace? idx c = some j) (r : ℕ) : s.line r c = b.line r (j + 1) := by
  unfold setCols? at h
  split at h
  · rename_i hdims
    obtain ⟨hpos, hrows, hcols, hpages⟩ := hdims
    cases h
    have hmem : c ∈ idx := lastPlace?_eq_some hj ▸ List.get_mem idx j
    have hc := hpos c hmem
    have hle := le_foldl_max (m := a.cols) (.inr hmem)
    have hlast : lastPlace? idx (c - 1 + 1) = some j := by rwa [Nat.sub_add_cancel hc]
    unfold line
    by_cases hr : 1 ≤ r ∧ r ≤ a.rows
    · rw [dif_pos ⟨hr, hc, hle⟩, dif_pos ⟨hrows ▸ hr, by omega, by have := j.isLt; omega⟩]
      refine List.ext_getElem (by simp [hpages]) fun k h₁ h₂ => ?_
      simp only [List.getElem_ofFn, hlast]
      rfl
    · rw [dif_neg fun h => hr h.1, dif_neg fun h => hr (hrows ▸ h.1)]
  · cases h

/-- Each column that is assigned stands at its number exactly when no number comes twice. -/
theorem lastPlace?_get_iff {idx : List ℕ} : (∀ j, lastPlace? idx (idx.get j) = some j) ↔ idx.Nodup := by
  rw [List.nodup_iff_injective_get]
  constructor
  · intro h i j hij
    exact Option.some.inj ((h i).symm.trans (hij ▸ h j))
  · intro h j
    obtain ⟨i, hi⟩ := exists_lastPlace? (List.get_mem idx j)
    rw [hi, h (lastPlace?_eq_some hi)]

end Array3

namespace Array4

/-- The lines of the blocks at a row and a column. -/
def lines (s : Array4 α) (r c : ℕ) : List (List α) := s.blocks.map fun b => Array3.line ⟨s.rows, s.cols, s.pages, b⟩ r c

theorem push?_eq {s : Array4 α} {a : Array3 α} (h : s.rows = a.rows ∧ s.cols = a.cols ∧ s.pages = a.pages) :
    ∃ t, s.push? a = some t ∧ (t.rows, t.cols, t.pages) = (s.rows, s.cols, s.pages) ∧
      ∀ r c, t.lines r c = s.lines r c ++ [a.line r c] := by
  obtain ⟨rows, cols, pages, blocks⟩ := s
  obtain ⟨rows', cols', pages', elem⟩ := a
  obtain ⟨rfl, rfl, rfl⟩ := h
  refine ⟨⟨rows, cols, pages, blocks ++ [elem]⟩, dif_pos ⟨rfl, rfl, rfl⟩, rfl, fun r c => ?_⟩
  simp only [lines, List.map_append, List.map_cons, List.map_nil]

theorem lines?_eq {s : Array4 α} {r c : ℕ} (hr : 1 ≤ r ∧ r ≤ s.rows) (hc : 1 ≤ c ∧ c ≤ s.cols) (hpages : s.pages ≠ 1) :
    ∃ a, s.lines? r c = some a ∧ a.cols = s.pages ∧ a.rows = s.lines r c := by
  unfold lines?
  simp only [dif_pos (And.intro hr hc), if_neg hpages]
  refine ⟨_, rfl, rfl, List.map_congr_left fun b _ => ?_⟩
  rw [Array3.line, dif_pos ⟨hr, hc⟩]

end Array4

theorem Slices.push?_none (a : Mat α) :
    ∃ t, push? none a = some t ∧ t.height = a.rows.length ∧ t.width = a.cols ∧ t.slices = [a] :=
  ⟨_, rfl, rfl, rfl, rfl⟩

theorem Slices.push?_some {s : Slices α} {a : Mat α} (h : a.rows.length = s.height ∧ a.cols = s.width) (hcols : a.cols ≠ 1) :
    ∃ t, push? (some s) a = some t ∧ t.height = s.height ∧ t.width = s.width ∧ t.slices = s.slices ++ [a] := by
  simp only [push?, Mat.expand_of_cols hcols, dif_pos h]
  exact ⟨_, rfl, rfl, rfl, rfl⟩

theorem Slices.takeRows?_of_le {s : Slices α} {n : ℕ} (h : n ≤ s.height) :
    ∃ t, s.takeRows? n = some t ∧ t.height = n ∧ t.width = s.width ∧ t.slices = s.slices.map (·.takeRows n) := by
  rw [takeRows?, dif_pos h]
  exact ⟨_, rfl, rfl, rfl, rfl⟩

theorem appendAt?_of_lt {cells : List (Mat α)} {k : ℕ} {a : Mat α} (hk : cells[k]? = some a) {width : ℕ} (ha : a.Takes width)
    {v : List α} (hv : v.length = width) :
    ∃ b, appendAt? cells (k + 1) v = some (cells.set k b) ∧ b.Takes width ∧ b.rows = a.rows ++ [v] := by
  obtain ⟨hlt, -⟩ := List.getElem?_eq_some_iff.mp hk
  obtain ⟨b, hb, hspec⟩ := ha.appendRow hv
  have hindex : ((k : ℤ) + 1 - 1).toNat = k := by omega
  have hgrow : k + 1 - cells.length = 0 := by omega
  refine ⟨b, ?_, hspec⟩
  rw [appendAt?, if_pos (by omega)]
  simp only [hindex, hk, Option.getD_some, hb, hgrow, List.replicate_zero, List.append_nil]
  rfl

end MatArray
