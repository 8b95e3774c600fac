import AtherosCsi.Theorems.BfFile

/-! Where the receive antennas of a report end up. A report names a column for each of them, and the reader
    moves the columns only where the named columns have the right sum. With two antennas the right sum puts
    both into the same column, so that the reader never arranges two antennas that stand the wrong way round. -/

namespace AtherosCsi
open MatArray

/-- Each antenna of the report stands in the column that the report names for it. -/
def Arranged (x : Report) (y : Bfee) : Prop :=
  ∀ r < x.nrx.toNat, ∀ t, y.csi.line t ((permOf x.antennaSel).getD r 0) = x.bfee.csi.line t (r + 1)

namespace Report

/-- A report whose antennas are told apart by their entries. -/
def labelled (nrx antennaSel : UInt8) : Report :=
  { oneReport with
    nrx, antennaSel
    real := fun _ r _ => Int8.ofNat r
    imag := fun _ _ _ => 0
    fits := by
      have hlt := nrx.toNat_lt
      rw [show oneReport.ntx.toNat = 1 from rfl]
      omega }

theorem line_labelled {nrx antennaSel : UInt8} {c r : ℕ} (hnrx : nrx.toNat ≤ 3) (hr : r < nrx.toNat)
    (h : (labelled nrx antennaSel).bfee.csi.line 1 c = (labelled nrx antennaSel).bfee.csi.line 1 (r + 1)) : c = r + 1 := by
  have hlabel : ∀ a b : Fin 3, (Int8.ofNat a).toInt = (Int8.ofNat b).toInt → a = b := by decide
  have hright : (labelled nrx antennaSel).bfee.csi.line 1 (r + 1) = List.ofFn fun _ : Fin 30 => ((Int8.ofNat r).toInt, 0) :=
    dif_pos ⟨⟨Nat.le_refl 1, Nat.le_refl 1⟩, Nat.le_add_left 1 r, hr⟩
  rcases Decidable.em (1 ≤ c ∧ c ≤ nrx.toNat) with hc | hc
  · have hleft : (labelled nrx antennaSel).bfee.csi.line 1 c = List.ofFn fun _ : Fin 30 => ((Int8.ofNat (c - 1)).toInt, 0) :=
      dif_pos ⟨⟨Nat.le_refl 1, Nat.le_refl 1⟩, hc⟩
    rw [hleft, hright] at h
    have hfirst := congrArg Prod.fst (congrFun (List.ofFn_injective h) 0)
    have hsame := congrArg Fin.val (hlabel ⟨c - 1, by omega⟩ ⟨r, by omega⟩ hfirst)
    simp only at hsame
    omega
  · have hleft : (labelled nrx antennaSel).bfee.csi.line 1 c = [] := dif_neg fun h => hc h.2
    rw [hleft, hright] at h
    exact absurd (congrArg List.length h) (by simp)

variable (x : Report) {sum : ℕ} (hone : x.nrx ≠ 1) (hsum : triangle x.nrx.toNat = .ok sum)
include hone hsum

/-- The columns stay as they are read where their numbers have another sum. -/
theorem placed_of_ne (hperm : (permOf x.antennaSel).sum ≠ sum) : placed x.bfee = .ok (x.bfee, true) := by
  rw [placed_of_triangle (r := x.bfee) hone hsum]
  exact if_pos hperm

theorem placed_of_eq (hrx : x.nrx.toNat ≤ 3) (hperm : (permOf x.antennaSel).sum = sum) :
    ∃ csi, x.bfee.csi.setCols? ((permOf x.antennaSel).take x.nrx.toNat) x.bfee.csi = some csi ∧
      placed x.bfee = .ok ({ x.bfee with csi }, false) := by
  obtain ⟨csi, hcsi, hp⟩ := x.permuted_bfee hrx
  have hsame : ¬ x.bfee.perm.sum ≠ sum := not_not.mpr hperm
  refine ⟨csi, hcsi, ?_⟩
  rw [placed_of_triangle (r := x.bfee) hone hsum, if_neg hsame, hp]

end Report

/-! ### Which antennas are arranged -/

section Arranged
variable {nrx antennaSel : UInt8}

/-- Antennas that are not moved. -/
theorem arranged_bfee_iff (hnrx : nrx.toNat ≤ 3) :
    (∀ x : Report, x.nrx = nrx → x.antennaSel = antennaSel → Arranged x x.bfee) ↔
      ∀ r < nrx.toNat, (permOf antennaSel).getD r 0 = r + 1 := by
  constructor
  · intro h r hr
    exact Report.line_labelled hnrx hr (h (Report.labelled nrx antennaSel) rfl rfl r hr 1)
  · rintro h x rfl rfl r hr t
    rw [h r hr]

/-- Antennas that are moved. -/
theorem arranged_setCols_iff (hnrx : nrx.toNat ≤ 3) :
    (∀ x : Report, x.nrx = nrx → x.antennaSel = antennaSel → ∀ csi,
        x.bfee.csi.setCols? ((permOf antennaSel).take nrx.toNat) x.bfee.csi = some csi → Arranged x { x.bfee with csi }) ↔
      ((permOf antennaSel).take nrx.toNat).Nodup := by
  have hlen : ((permOf antennaSel).take nrx.toNat).length = nrx.toNat := by
    rw [List.length_take, show (permOf antennaSel).length = 3 from rfl, Nat.min_eq_left hnrx]
  have hget : ∀ (r : ℕ) (hr : r < ((permOf antennaSel).take nrx.toNat).length),
      (permOf antennaSel).getD r 0 = ((permOf antennaSel).take nrx.toNat).get ⟨r, hr⟩ := fun r hr => by
    have hr3 : r < (permOf antennaSel).length := by
      rw [hlen] at hr
      exact hr.trans_le hnrx
    rw [List.getD_eq_getElem _ _ hr3, List.get_eq_getElem, List.getElem_take]
  rw [← Array3.lastPlace?_get_iff]
  constructor
  · intro h j
    obtain ⟨csi, hcsi, -⟩ := (Report.labelled nrx antennaSel).permuted_bfee hnrx
    obtain ⟨i, hi⟩ := Array3.exists_lastPlace? (List.get_mem ((permOf antennaSel).take nrx.toNat) j)
    have hj : (j : ℕ) < nrx.toNat := lt_of_lt_of_eq j.isLt hlen
    have hline := h (Report.labelled nrx antennaSel) rfl rfl csi hcsi j hj 1
    -- The columns of both antennas look alike, so that they are one.
    have hsame : (i : ℕ) + 1 = j + 1 := by
      refine Report.line_labelled hnrx hj (Eq.trans ?_ hline)
      have hcol := Array3.setCols?_line hcsi hi 1
      rw [← hget j j.isLt] at hcol
      exact hcol.symm
    rw [hi, Fin.ext (Nat.succ.inj hsame)]
  · rintro h x rfl rfl csi hcsi r hr t
    have hcol := Array3.setCols?_line hcsi (h ⟨r, hlen.symm ▸ hr⟩) t
    rw [← hget r (hlen.symm ▸ hr)] at hcol
    exact hcol

end Arranged

theorem triangle_eq (nrx : UInt8) (hnrx : nrx = 2 ∨ nrx = 3) : nrx ≠ 1 ∧ nrx.toNat ≤ 3 ∧ ∃ sum, triangle nrx.toNat = .ok sum := by
  rcases hnrx with rfl | rfl
  · exact ⟨by decide, by decide, 3, rfl⟩
  · exact ⟨by decide, by decide, 6, rfl⟩

/-- Two columns with the sum 3, and any third, are both the first one. -/
theorem two_columns {a b c : ℕ} (ha : 1 ≤ a) (hb : 1 ≤ b) (hc : 1 ≤ c) :
    (if [a, b, c].sum = 3 then [a, b].Nodup else ∀ r < 2, [a, b, c].getD r 0 = r + 1) ↔ [a, b] = [1, 2] := by
  have hsum : [a, b, c].sum = a + (b + c) := by simp
  rw [hsum]
  split
  · obtain ⟨rfl, rfl⟩ : a = 1 ∧ b = 1 := by omega
    decide
  · constructor
    · intro h
      rw [show a = 1 from h 0 (by decide), show b = 2 from h 1 (by decide)]
    · rintro h r hr
      obtain ⟨rfl, rfl⟩ : a = 1 ∧ b = 2 := by simpa using h
      obtain rfl | rfl : r = 0 ∨ r = 1 := by omega
      all_goals rfl

theorem three_columns {a b c : ℕ} (ha : 1 ≤ a) (hb : 1 ≤ b) (hc : 1 ≤ c) :
    (if [a, b, c].sum = 6 then [a, b, c].Nodup else ∀ r < 3, [a, b, c].getD r 0 = r + 1) ↔ [a, b, c].Perm [1, 2, 3] := by
  have hsum : [a, b, c].sum = a + (b + c) := by simp
  split
  · rename_i hsix
    constructor
    · intro hnodup
      have hne : a ≠ b ∧ a ≠ c ∧ b ≠ c := by simpa [and_assoc] using hnodup
      have hsub : [a, b, c] ⊆ [1, 2, 3] := by
        intro x hx
        simp only [List.mem_cons, List.not_mem_nil, or_false] at hx ⊢
        rcases hx with rfl | rfl | rfl <;> omega
      exact (List.subperm_of_subset hnodup hsub).perm_of_length_le (Nat.le_refl 3)
    · exact fun h => h.nodup_iff.mpr (by decide)
  · rename_i hsix
    constructor
    · intro h
      have hin : a = 1 ∧ b = 2 ∧ c = 3 := ⟨h 0 (by decide), h 1 (by decide), h 2 (by decide)⟩
      omega
    · exact fun h => absurd (h.sum_eq.trans rfl) hsix

/-- The reader arranges the antennas of every report with two or three receive antennas and this selection
    exactly when the report names three columns in any order, or two columns in the order in which they are. -/
theorem arranged_iff (nrx antennaSel : UInt8) (hnrx : nrx = 2 ∨ nrx = 3) :
    (∀ x : Report, x.nrx = nrx → x.antennaSel = antennaSel → ∃ y broken, placed x.bfee = .ok (y, broken) ∧ Arranged x y) ↔
      nrx = 2 ∧ (permOf antennaSel).take 2 = [1, 2] ∨ nrx = 3 ∧ (permOf antennaSel).Perm [1, 2, 3] := by
  obtain ⟨hone, hle, sum, hsum⟩ := triangle_eq nrx hnrx
  have hcases : (∀ x : Report, x.nrx = nrx → x.antennaSel = antennaSel → ∃ y broken, placed x.bfee = .ok (y, broken) ∧ Arranged x y) ↔
      if (permOf antennaSel).sum = sum then ((permOf antennaSel).take nrx.toNat).Nodup
      else ∀ r < nrx.toNat, (permOf antennaSel).getD r 0 = r + 1 := by
    split
    · rename_i hperm
      rw [← arranged_setCols_iff hle]
      refine forall_congr' fun x => forall_congr' fun hx => forall_congr' fun hsel => ?_
      subst hx hsel
      obtain ⟨csi, hcsi, hplaced⟩ := x.placed_of_eq hone hsum hle hperm
      rw [hplaced, hcsi]
      constructor
      · rintro ⟨y, broken, hy, hyarranged⟩ csi' hcsi'
        cases hy
        cases hcsi'
        exact hyarranged
      · exact fun h => ⟨_, _, rfl, h csi rfl⟩
    · rename_i hperm
      rw [← arranged_bfee_iff hle]
      refine forall_congr' fun x => forall_congr' fun hx => forall_congr' fun hsel => ?_
      subst hx hsel
      rw [x.placed_of_ne hone hsum hperm]
      constructor
      · rintro ⟨y, broken, hy, hyarranged⟩
        cases hy
        exact hyarranged
      · exact fun h => ⟨_, _, rfl, h⟩
  rw [hcases]
  have hmem : ∀ {c}, c ∈ permOf antennaSel → 1 ≤ c ∧ c ≤ 4 := mem_permOf
  obtain ⟨a, b, c, habc⟩ : ∃ a b c, permOf antennaSel = [a, b, c] := ⟨_, _, _, rfl⟩
  rw [habc] at hmem ⊢
  have ha := (hmem (c := a) (by simp)).1
  have hb := (hmem (c := b) (by simp)).1
  have hc := (hmem (c := c) (by simp)).1
  rcases hnrx with rfl | rfl
  · cases hsum
    refine (two_columns ha hb hc).trans ⟨fun h => .inl ⟨rfl, h⟩, fun h => ?_⟩
    exact (h.resolve_right fun h => absurd h.1 (by decide)).2
  · cases hsum
    refine (three_columns ha hb hc).trans ⟨fun h => .inr ⟨rfl, h⟩, fun h => ?_⟩
    exact (h.resolve_left fun h => absurd h.1 (by decide)).2

/-- Selection 1 names the second column and then the first one, so that the entries stay where they are. -/
theorem arranged_iff_two : ¬ ∀ x : Report, x.nrx = 2 → x.antennaSel = 1 →
    ∃ y broken, placed x.bfee = .ok (y, broken) ∧ Arranged x y := by
  rw [arranged_iff 2 1 (.inl rfl)]
  decide

end AtherosCsi
