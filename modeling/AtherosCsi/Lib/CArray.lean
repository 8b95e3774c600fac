import Mathlib.Data.Fin.Basic

/-! Arrays of a fixed size, indexed as C indexes them: by any integer, where an index outside the array
    has no defined result. `get?` and `set?` give `none` there, so a computation that returns `some`
    used only indices inside its arrays. -/

@[ext] structure CArray (n : ℕ) (α : Type) where
  elem : Fin n → α

namespace CArray
variable {n : ℕ} {α : Type}

def get? (a : CArray n α) (i : ℤ) : Option α :=
  if h : 0 ≤ i ∧ i < n then some (a.elem ⟨i.toNat, by omega⟩) else none

/-- The array with `x` at `i`, or `none` for an index outside the array. -/
def set? (a : CArray n α) (i : ℤ) (x : α) : Option (CArray n α) :=
  if 0 ≤ i ∧ i < n then some ⟨fun j => if (j : ℤ) = i then x else a.elem j⟩ else none

/-- The array after `xs` has been written over its first elements. -/
def overlay (a : CArray n α) (xs : List α) : CArray n α := ⟨fun i => (xs[(i : ℕ)]?).getD (a.elem i)⟩

/-- The first `k` elements, or `none` when the array is shorter. -/
def first? (a : CArray n α) (k : ℕ) : Option (List α) :=
  if h : k ≤ n then some (List.ofFn fun i : Fin k => a.elem ⟨i, by omega⟩) else none

theorem get?_of_lt (a : CArray n α) {i : ℕ} (h : i < n) : a.get? i = some (a.elem ⟨i, h⟩) := by
  have hi : (0 : ℤ) ≤ i ∧ (i : ℤ) < n := by omega
  simp [get?, hi]

theorem get?_eq_some {a : CArray n α} {i : ℤ} {x : α} (h : a.get? i = some x) : 0 ≤ i ∧ i < n := by
  unfold get? at h
  split at h
  · assumption
  · cases h

theorem set?_of_lt (a : CArray n α) {i : ℕ} (h : i < n) (x : α) :
    a.set? i x = some ⟨fun j => if (j : ℕ) = i then x else a.elem j⟩ := by
  have hi : (0 : ℤ) ≤ i ∧ (i : ℤ) < n := by omega
  rw [set?, if_pos hi]
  simp only [Int.natCast_inj]

theorem set?_eq_some {a b : CArray n α} {i : ℤ} {x : α} (h : a.set? i x = some b) : 0 ≤ i ∧ i < n := by
  unfold set? at h
  split at h
  · assumption
  · cases h

theorem get?_overlay (a : CArray n α) {xs : List α} (hn : xs.length ≤ n) {i : ℕ} (hi : i < xs.length) :
    (a.overlay xs).get? i = xs[i]? := by
  rw [get?_of_lt _ (hi.trans_le hn)]
  simp [overlay, List.getElem?_eq_getElem hi]

theorem set?_overlay_take (a : CArray n α) (xs : List α) {i : ℕ} {x : α} (hi : i < n) (hx : xs[i]? = some x) :
    (a.overlay (xs.take i)).set? i x = some (a.overlay (xs.take (i + 1))) := by
  rw [set?_of_lt _ hi]
  congr 1
  ext1
  funext j
  simp only [overlay, List.getElem?_take]
  by_cases hj : (j : ℕ) = i
  · simp [hj, hx]
  · have hlt : (j : ℕ) < i + 1 ↔ (j : ℕ) < i := by omega
    simp only [hj, if_false, hlt]

/-- A value written behind the first elements joins them. -/
theorem set?_overlay_length (a : CArray n α) {xs : List α} (h : xs.length < n) (x : α) :
    (a.overlay xs).set? xs.length x = some (a.overlay (xs ++ [x])) := by
  have hnext := a.set?_overlay_take (xs ++ [x]) h List.getElem?_concat_length
  rwa [List.take_left, ← List.length_singleton (a := x), ← List.length_append, List.take_length] at hnext

theorem length_first? {a : CArray n α} {k : ℕ} {xs : List α} (h : a.first? k = some xs) : xs.length = k := by
  unfold first? at h
  split at h
  · rw [← Option.some.inj h, List.length_ofFn]
  · cases h

theorem first?_take {a : CArray n α} {k j : ℕ} {xs : List α} (h : a.first? k = some xs) (hj : j ≤ k) :
    a.first? j = some (xs.take j) := by
  unfold first? at h
  split at h
  · rename_i hk
    rw [first?, dif_pos (hj.trans hk), ← Option.some.inj h]
    congr 1
    apply List.ext_getElem
    · simp [hj]
    · intro i h₁ h₂
      simp
  · cases h

theorem first?_overlay (a : CArray n α) {xs : List α} (hn : xs.length ≤ n) {k : ℕ} (hk : k ≤ xs.length) :
    (a.overlay xs).first? k = some (xs.take k) := by
  rw [first?, dif_pos (hk.trans hn)]
  congr 1
  apply List.ext_getElem
  · simp [hk]
  · intro i h₁ h₂
    have hi : i < xs.length := by simp at h₂; omega
    simp [overlay, List.getElem?_eq_getElem hi]

/-- Enough values overwrite the array, whatever it held. -/
theorem overlay_eq_of_le (a b : CArray n α) {xs : List α} (h : n ≤ xs.length) : a.overlay xs = b.overlay xs := by
  ext i
  simp [overlay, List.getElem?_eq_getElem (i.isLt.trans_le h)]

theorem elem_overlay_of_le (a : CArray n α) {xs : List α} {i : Fin n} (h : xs.length ≤ i) : (a.overlay xs).elem i = a.elem i := by
  simp [overlay, List.getElem?_eq_none h]

end CArray
