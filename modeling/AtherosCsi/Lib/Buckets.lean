import AtherosCsi.Lib.MatArray

/-! Distributing a sequence over buckets that are numbered from 0. In a sequence whose keys never decrease, the buckets
    stand one behind the other, so that any choice of buckets is the part of the sequence with these keys. -/

namespace MatArray
variable {α β : Type}

/-! ### Lists with keys that never decrease -/

section Keys
variable {key : β → ℕ}

theorem filter_lt_append_filter_eq {n : ℕ} {xs : List β} (h : xs.Pairwise fun x y => key x ≤ key y)
    (hn : ∀ x ∈ xs, key x ≤ n) : (xs.filter (key · < n)) ++ (xs.filter (key · = n)) = xs := by
  induction xs with
  | nil => rfl
  | cons x xs ih =>
    obtain ⟨hx, hxs⟩ := List.pairwise_cons.mp h
    have htail := ih hxs fun y hy => hn y (List.mem_cons_of_mem _ hy)
    by_cases hlt : key x < n
    · rw [List.filter_cons_of_pos (by simpa using hlt), List.filter_cons_of_neg (by simp; omega), List.cons_append, htail]
    · -- from here on all keys are `n`
      have hkey : key x = n := Nat.le_antisymm (hn x List.mem_cons_self) (Nat.le_of_not_lt hlt)
      have hnone : xs.filter (key · < n) = [] := by
        rw [List.filter_eq_nil_iff]
        intro y hy
        have := hx y hy
        simp
        omega
      rw [hnone, List.nil_append] at htail
      rw [List.filter_cons_of_neg (by simpa using hlt), hnone, List.filter_cons_of_pos (by simpa using hkey), htail,
        List.nil_append]

theorem flatMap_filter_key (n : ℕ) {xs : List β} (h : xs.Pairwise fun x y => key x ≤ key y) (hn : ∀ x ∈ xs, key x < n) :
    (List.range n).flatMap (fun i => xs.filter (key · = i)) = xs := by
  induction n generalizing xs with
  | zero =>
    have hnil : xs = [] := List.eq_nil_iff_forall_not_mem.mpr fun x hx => absurd (hn x hx) (Nat.not_lt_zero _)
    rw [hnil]
    rfl
  | succ n ih =>
    have hlow := ih (h.filter (key · < n)) fun x hx => by simpa using (List.mem_filter.mp hx).2
    have hsame : ∀ i ∈ List.range n, (xs.filter (key · < n)).filter (key · = i) = xs.filter (key · = i) := by
      intro i hi
      have hi := List.mem_range.mp hi
      rw [List.filter_filter]
      refine List.filter_congr fun x _ => ?_
      simp
      omega
    rw [List.range_succ, List.flatMap_append, List.flatMap_singleton, ← List.flatMap_congr hsame, hlow]
    exact filter_lt_append_filter_eq h fun x hx => Nat.le_of_lt_succ (hn x hx)

theorem flatMap_filter (p : ℕ → Bool) (f : ℕ → List β) (xs : List ℕ) :
    (xs.filter p).flatMap f = xs.flatMap fun i => if p i then f i else [] := by
  induction xs with
  | nil => rfl
  | cons i xs ih =>
    rw [List.flatMap_cons, ← ih, List.filter_cons]
    split <;> rfl

/-- The buckets with the keys that `p` picks, one behind the other. -/
theorem flatMap_filter_filter_key (n : ℕ) {xs : List β} (h : xs.Pairwise fun x y => key x ≤ key y)
    (hn : ∀ x ∈ xs, key x < n) (p : ℕ → Bool) :
    ((List.range n).filter p).flatMap (fun i => xs.filter (key · = i)) = xs.filter fun x => p (key x) := by
  have hpicked := flatMap_filter_key n (h.filter fun x => p (key x)) fun x hx => hn x (List.mem_filter.mp hx).1
  rw [← hpicked, flatMap_filter]
  refine List.flatMap_congr fun i _ => ?_
  rw [List.filter_filter]
  by_cases hi : p i = true
  · rw [if_pos hi]
    refine List.filter_congr fun x _ => ?_
    by_cases hx : key x = i
    · simp [hx, hi]
    · simp [hx]
  · rw [if_neg hi, eq_comm, List.filter_eq_nil_iff]
    rintro x - hx
    simp only [Bool.and_eq_true, decide_eq_true_eq] at hx
    exact hi (hx.1 ▸ hx.2)

end Keys

/-! ### Rows in a cell array -/

/-- The cells hold the rows of `recs`, each in the cell of its number and in order. -/
structure Filled (n width : ℕ) (recs : List (ℕ × List α)) (cells : List (Mat α)) : Prop where
  length_eq : cells.length = n
  cell : ∀ i a, cells[i]? = some a → a.Takes width ∧ a.rows = (recs.filter (·.1 = i)).map (·.2)

theorem filled_nil (n width : ℕ) : Filled n width [] (List.replicate n (Mat.empty : Mat α)) where
  length_eq := List.length_replicate
  cell i a ha := by
    obtain rfl := List.eq_of_mem_replicate (List.mem_of_getElem? ha)
    exact ⟨Mat.takes_empty width, rfl⟩

section Filled
variable {n width : ℕ} {recs : List (ℕ × List α)} {cells : List (Mat α)}

theorem Filled.append (h : Filled n width recs cells) {k : ℕ} (hk : k < n) {v : List α} (hv : v.length = width) :
    ∃ cells', appendAt? cells (k + 1) v = some cells' ∧ Filled n width (recs ++ [(k, v)]) cells' := by
  have hlt : k < cells.length := h.length_eq ▸ hk
  have hget : cells[k]? = some cells[k] := List.getElem?_eq_getElem hlt
  obtain ⟨htakes, hrows⟩ := h.cell k _ hget
  obtain ⟨b, hb, hbtakes, hbrows⟩ := appendAt?_of_lt hget htakes hv
  refine ⟨_, hb, by rw [List.length_set, h.length_eq], fun i a ha => ?_⟩
  rw [List.filter_append, List.map_append]
  by_cases hi : k = i
  · subst hi
    rw [List.getElem?_set_self hlt] at ha
    obtain rfl := Option.some.inj ha
    exact ⟨hbtakes, by rw [hbrows, hrows]; simp⟩
  · rw [List.getElem?_set_ne hi] at ha
    obtain ⟨hat, har⟩ := h.cell i a ha
    exact ⟨hat, by rw [har]; simp [hi]⟩

theorem Filled.zipIdx_eq (h : Filled n width recs cells) :
    cells.zipIdx.map (fun c => (c.1.rows, c.2)) =
      (List.range n).map fun i => ((recs.filter (·.1 = i)).map (·.2), i) := by
  refine List.ext_getElem (by simp [h.length_eq]) fun i hi _ => ?_
  have hlt : i < cells.length := by simpa using hi
  simp [(h.cell i _ (List.getElem?_eq_getElem hlt)).2]

/-- Where the numbers never decrease, the cells that `p` picks hold, one behind the other, the rows with these numbers. -/
theorem Filled.flatMap_filter (h : Filled n width recs cells) (hsorted : recs.Pairwise fun x y => x.1 ≤ y.1)
    (hlt : ∀ r ∈ recs, r.1 < n) (p : ℕ → Bool) :
    (cells.zipIdx.filter fun c => p c.2).flatMap (fun c => c.1.rows) = (recs.filter fun r => p r.1).map (·.2) := by
  rw [← flatMap_filter_filter_key n hsorted hlt p, List.map_flatMap]
  calc (cells.zipIdx.filter fun c => p c.2).flatMap (fun c => c.1.rows)
      = ((cells.zipIdx.map fun c => (c.1.rows, c.2)).filter fun c => p c.2).flatMap (·.1) := by
        rw [List.filter_map, List.flatMap_map]
        rfl
    _ = _ := by
        rw [h.zipIdx_eq, List.filter_map, List.flatMap_map]
        rfl

end Filled

end MatArray
