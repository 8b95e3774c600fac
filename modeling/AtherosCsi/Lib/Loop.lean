import Mathlib.Data.Nat.Basic
import Mathlib.Data.BitVec

/-! Loops of imperative programs as functions on an explicit state.

    `forUp` is a counting loop whose counter is a machine word: it may wrap around, and then the loop
    does not end. `iterate` repeats a step that some measure bounds, until the step declines. For each
    there is one rule that carries an invariant through the loop; `iterate_sim` carries a relation through
    two loops. -/

namespace Loop
variable {σ τ : Type}

/-! ### Counting loops -/

def forLoop (w hi : ℕ) (f : BitVec w → σ → Option σ) : ℕ → BitVec w → σ → Option σ
  | 0, _, _ => none
  | fuel + 1, i, s => if i.toNat < hi then (f i s).bind (forLoop w hi f fuel (i + 1)) else some s

/-- `for (i = lo; i < hi; i++) body` with a counter of `w` bits. After `2 ^ w` rounds the counter has come
    back to where it started, so a loop still running then never ends; that is `none`, as is a body
    without a result. -/
def forUp (w lo hi : ℕ) (f : BitVec w → σ → Option σ) (s : σ) : Option σ :=
  forLoop w hi f (2 ^ w + 1) (BitVec.ofNat w lo) s

theorem toNat_counter {w i : ℕ} (h : i < 2 ^ w) : (BitVec.ofNat w i).toNat = i := by
  rw [BitVec.toNat_ofNat, Nat.mod_eq_of_lt h]

theorem counter_succ (w i : ℕ) : BitVec.ofNat w i + 1 = BitVec.ofNat w (i + 1) := (BitVec.ofNat_add i 1).symm

theorem forLoop_rule {w hi : ℕ} {f : BitVec w → σ → Option σ} (hw : hi < 2 ^ w) {P : ℕ → σ → Prop} {lo : ℕ}
    (hf : ∀ i s, lo ≤ i → i < hi → P i s → ∃ t, f (BitVec.ofNat w i) s = some t ∧ P (i + 1) t) :
    ∀ (fuel i : ℕ) (s : σ), lo ≤ i → i ≤ hi → hi < i + fuel → P i s →
      ∃ t, forLoop w hi f fuel (BitVec.ofNat w i) s = some t ∧ P hi t
  | 0, i, s, _, hi', hlt, _ => absurd hlt (by omega)
  | fuel + 1, i, s, hlo, hi', hlt, hP => by
    have hval : (BitVec.ofNat w i).toNat = i := toNat_counter (by omega)
    by_cases hin : i < hi
    · obtain ⟨t, hb, hPt⟩ := hf i s hlo hin hP
      obtain ⟨u, hu, hPu⟩ := forLoop_rule hw hf fuel (i + 1) t (by omega) (by omega) (by omega) hPt
      refine ⟨u, ?_, hPu⟩
      rw [forLoop, hval, if_pos hin, hb, Option.bind_some, counter_succ, hu]
    · obtain rfl : i = hi := by omega
      exact ⟨s, by rw [forLoop, hval, if_neg hin], hP⟩

/-- The rule of a counting loop whose bound fits its counter: it ends, and keeps an invariant that each
    round carries from one counter value to the next. -/
theorem forUp_rule {w lo hi : ℕ} {f : BitVec w → σ → Option σ} {s : σ} (P : ℕ → σ → Prop) (hw : hi < 2 ^ w)
    (hlo : lo ≤ hi) (h0 : P lo s)
    (hf : ∀ i s, lo ≤ i → i < hi → P i s → ∃ t, f (BitVec.ofNat w i) s = some t ∧ P (i + 1) t) :
    ∃ t, forUp w lo hi f s = some t ∧ P hi t :=
  forLoop_rule hw hf (2 ^ w + 1) lo s (Nat.le_refl _) hlo (by omega) h0

/-- Three counting loops inside each other pass through the numbers from 0 on. -/
theorem forUp_nest {w a b c : ℕ} {f : BitVec w → BitVec w → BitVec w → σ → Option σ} {s : σ} (P : ℕ → σ → Prop)
    (ha : a < 2 ^ w) (hb : b < 2 ^ w) (hc : c < 2 ^ w) (h0 : P 0 s)
    (hf : ∀ k j i, k < a → j < b → i < c → ∀ s, P ((k * b + j) * c + i) s →
      ∃ t, f (BitVec.ofNat w k) (BitVec.ofNat w j) (BitVec.ofNat w i) s = some t ∧ P ((k * b + j) * c + i + 1) t) :
    ∃ t, forUp w 0 a (fun k => forUp w 0 b fun j => forUp w 0 c fun i => f k j i) s = some t ∧ P (a * b * c) t := by
  have inner : ∀ k j, k < a → j < b → ∀ s, P ((k * b + j) * c) s →
      ∃ t, forUp w 0 c (f (BitVec.ofNat w k) (BitVec.ofNat w j)) s = some t ∧ P ((k * b + (j + 1)) * c) t := by
    intro k j hk hj s hs
    obtain ⟨t, ht, hP⟩ := forUp_rule (fun i => P ((k * b + j) * c + i)) hc (Nat.zero_le _) hs
      fun i s _ hi hs => hf k j i hk hj hi s hs
    have hend : (k * b + (j + 1)) * c = (k * b + j) * c + c := by rw [← Nat.add_assoc, Nat.succ_mul]
    exact ⟨t, ht, by rwa [hend]⟩
  have middle : ∀ k, k < a → ∀ s, P (k * b * c) s →
      ∃ t, forUp w 0 b (fun j => forUp w 0 c (f (BitVec.ofNat w k) j)) s = some t ∧ P ((k + 1) * b * c) t := by
    intro k hk s hs
    obtain ⟨t, ht, hP⟩ := forUp_rule (f := fun j => forUp w 0 c (f (BitVec.ofNat w k) j)) (fun j => P ((k * b + j) * c))
      hb (Nat.zero_le _) (by simpa using hs) fun j s _ hj hs => inner k j hk hj s hs
    have hend : (k + 1) * b * c = (k * b + b) * c := by rw [Nat.succ_mul]
    exact ⟨t, ht, by rwa [hend]⟩
  have start : P (0 * b * c) s := by
    rw [Nat.zero_mul, Nat.zero_mul]
    exact h0
  exact forUp_rule (f := fun k => forUp w 0 b fun j => forUp w 0 c (f k j)) (fun k => P (k * b * c)) ha
    (Nat.zero_le _) start fun k s _ hk hs => middle k hk s hs

/-- A loop that makes a measure grow has the same result in a bound on the measure, if that is how it ends. -/
theorem forLoop_bounded {w hi b : ℕ} {f g : BitVec w → σ → Option σ} {m : σ → ℕ}
    (hfg : ∀ i s t, f i s = some t → m s ≤ m t ∧ (m t ≤ b → g i s = some t)) (fuel : ℕ) {i : BitVec w} {s t : σ}
    (h : forLoop w hi f fuel i s = some t) : m s ≤ m t ∧ (m t ≤ b → forLoop w hi g fuel i s = some t) := by
  induction fuel generalizing i s with
  | zero => cases h
  | succ fuel ih =>
    rw [forLoop] at h ⊢
    split at h
    · rename_i hlt
      obtain ⟨u, hu, hrest⟩ := Option.bind_eq_some_iff.mp h
      obtain ⟨hfirst, hbody⟩ := hfg i s u hu
      obtain ⟨hgrow, hloop⟩ := ih hrest
      refine ⟨hfirst.trans hgrow, fun ht => ?_⟩
      rw [if_pos hlt, hbody (hgrow.trans ht), Option.bind_some]
      exact hloop ht
    · rename_i hge
      cases h
      exact ⟨Nat.le_refl _, fun _ => if_neg hge⟩

theorem forUp_bounded {w lo hi b : ℕ} {f g : BitVec w → σ → Option σ} {m : σ → ℕ}
    (hfg : ∀ i s t, f i s = some t → m s ≤ m t ∧ (m t ≤ b → g i s = some t)) {s t : σ} (h : forUp w lo hi f s = some t) :
    m s ≤ m t ∧ (m t ≤ b → forUp w lo hi g s = some t) :=
  forLoop_bounded hfg _ h

/-- A map from the states of one loop to those of another that commutes with the bodies commutes with the
    loops. -/
theorem forLoop_map {w hi : ℕ} {f : BitVec w → σ → Option σ} {f' : BitVec w → τ → Option τ} {g : τ → σ}
    (hf : ∀ i t, (f' i t).map g = f i (g t)) (fuel : ℕ) (i : BitVec w) (t : τ) :
    (forLoop w hi f' fuel i t).map g = forLoop w hi f fuel i (g t) := by
  induction fuel generalizing i t with
  | zero => rfl
  | succ fuel ih =>
    rw [forLoop, forLoop]
    split
    · rw [← hf]
      cases f' i t with
      | none => rfl
      | some u => exact ih (i + 1) u
    · rfl

theorem forUp_map {w lo hi : ℕ} {f : BitVec w → σ → Option σ} {f' : BitVec w → τ → Option τ} {g : τ → σ}
    (hf : ∀ i t, (f' i t).map g = f i (g t)) (t : τ) : (forUp w lo hi f' t).map g = forUp w lo hi f (g t) :=
  forLoop_map hf _ _ t

theorem forUp_append {α : Type} {w hi : ℕ} {f : BitVec w → List α → Option (List α)} {g : ℕ → List α} (hw : hi < 2 ^ w)
    (hf : ∀ i < hi, ∀ s, f (BitVec.ofNat w i) s = some (s ++ g i)) (s : List α) :
    forUp w 0 hi f s = some (s ++ (List.range hi).flatMap g) := by
  have h0 : s = s ++ (List.range 0).flatMap g := (List.append_nil s).symm
  obtain ⟨t, ht, rfl⟩ := forUp_rule (fun i t => t = s ++ (List.range i).flatMap g) hw (Nat.zero_le _) h0 fun i t _ hi ht => by
    refine ⟨_, hf i hi t, ?_⟩
    rw [ht, List.range_succ, List.flatMap_append, List.append_assoc, List.flatMap_singleton]
  exact ht

theorem forLoop_ran {w hi : ℕ} {f : BitVec w → σ → Option σ} (hw : hi < 2 ^ w) :
    ∀ (fuel lo : ℕ) {s t : σ}, forLoop w hi f fuel (BitVec.ofNat w lo) s = some t →
      ∀ i, lo ≤ i → i < hi → ∃ u v, f (BitVec.ofNat w i) u = some v
  | 0, _, _, _, h, _, _, _ => by simp [forLoop] at h
  | fuel + 1, lo, s, t, h, i, hlo, hhi => by
    have hlt : lo < hi := Nat.lt_of_le_of_lt hlo hhi
    rw [forLoop, toNat_counter (hlt.trans hw), if_pos hlt] at h
    obtain ⟨u, hu, hrest⟩ := Option.bind_eq_some_iff.mp h
    rw [counter_succ] at hrest
    by_cases hi' : i = lo
    · subst hi'
      exact ⟨s, u, hu⟩
    · exact forLoop_ran hw fuel (lo + 1) hrest i (by omega) hhi

theorem forLoop_inv {w hi : ℕ} {f : BitVec w → σ → Option σ} (hw : hi < 2 ^ w) {P : ℕ → σ → Prop}
    (hf : ∀ i s t, i < hi → P i s → f (BitVec.ofNat w i) s = some t → P (i + 1) t) :
    ∀ (fuel lo : ℕ) {s t : σ}, lo ≤ hi → P lo s → forLoop w hi f fuel (BitVec.ofNat w lo) s = some t → P hi t
  | 0, _, _, _, _, _, h => by simp [forLoop] at h
  | fuel + 1, lo, s, t, hlo, hP, h => by
    rw [forLoop, toNat_counter (hlo.trans_lt hw)] at h
    split at h
    · rename_i hlt
      obtain ⟨u, hu, hrest⟩ := Option.bind_eq_some_iff.mp h
      rw [counter_succ] at hrest
      exact forLoop_inv hw hf fuel (lo + 1) hlt (hf lo s u hlt hP hu) hrest
    · rename_i hge
      obtain rfl : lo = hi := by omega
      exact Option.some.inj h ▸ hP

/-- A counting loop that ended has kept an invariant that each of its rounds carries on. -/
theorem forUp_inv {w hi : ℕ} {f : BitVec w → σ → Option σ} {s t : σ} (P : ℕ → σ → Prop) (hw : hi < 2 ^ w) (h0 : P 0 s)
    (hf : ∀ i s t, i < hi → P i s → f (BitVec.ofNat w i) s = some t → P (i + 1) t) (h : forUp w 0 hi f s = some t) : P hi t :=
  forLoop_inv hw hf _ 0 (Nat.zero_le _) h0 h

/-- A counting loop that ended ran its body with a result at each counter value of its range. -/
theorem forUp_ran {w lo hi : ℕ} {f : BitVec w → σ → Option σ} {s t : σ} (hw : hi < 2 ^ w)
    (h : forUp w lo hi f s = some t) {i : ℕ} (hlo : lo ≤ i) (hhi : i < hi) :
    ∃ u v, f (BitVec.ofNat w i) u = some v :=
  forLoop_ran hw _ lo h i hlo hhi

theorem forUp_ran_last {w hi : ℕ} {f : BitVec w → σ → Option σ} {s t : σ} (hw : hi < 2 ^ w)
    (h : forUp w 0 hi f s = some t) (hpos : hi ≠ 0) : ∃ u v, f (BitVec.ofNat w (hi - 1)) u = some v :=
  forUp_ran hw h (Nat.zero_le _) (Nat.sub_lt (Nat.pos_of_ne_zero hpos) Nat.one_pos)

/-! ### Lists made of blocks -/

section Blocks
variable {α : Type} {f : ℕ → List α} {w : ℕ} (hf : ∀ i, (f i).length = w)
include hf

theorem length_flatMap_range (n : ℕ) : ((List.range n).flatMap f).length = n * w := by
  induction n with
  | zero => simp
  | succ n ih => simp [List.range_succ, ih, hf, Nat.succ_mul]

/-- Element `i * w + j` of blocks of `w` elements is element `j` of block `i`. -/
theorem getElem?_flatMap_range {n i j : ℕ} (hi : i < n) (hj : j < w) :
    ((List.range n).flatMap f)[i * w + j]? = (f i)[j]? := by
  obtain ⟨m, rfl⟩ := Nat.exists_eq_add_of_lt hi
  rw [Nat.add_assoc, List.range_add, List.flatMap_append, List.getElem?_append_right,
    length_flatMap_range hf, Nat.add_sub_cancel_left, List.range_succ_eq_map]
  · simp only [List.map_cons, List.flatMap_cons, Nat.add_zero]
    rw [List.getElem?_append_left (by rw [hf]; exact hj)]
  · rw [length_flatMap_range hf]
    exact Nat.le_add_right _ _

end Blocks

theorem length_flatMap_le {α β : Type} {l : List α} {f : α → List β} {w : ℕ} (hf : ∀ x ∈ l, (f x).length ≤ w) :
    (l.flatMap f).length ≤ l.length * w := by
  induction l with
  | nil => exact Nat.zero_le _
  | cons x l ih =>
    have hfirst := hf x List.mem_cons_self
    have hrest := ih fun y hy => hf y (List.mem_cons_of_mem x hy)
    rw [List.flatMap_cons, List.length_append, List.length_cons, Nat.succ_mul, Nat.add_comm]
    exact Nat.add_le_add hrest hfirst

/-! ### Loops over a list -/

section ForEach
variable {α : Type} {f : σ → α → Option σ} {P : List α → σ → Prop} {xs : List α}

theorem foldlM_rule_from (hf : ∀ pre x s, pre ++ [x] <+: xs → P pre s → ∃ t, f s x = some t ∧ P (pre ++ [x]) t) :
    ∀ (post pre : List α) (s : σ), pre ++ post = xs → P pre s → ∃ t, post.foldlM f s = some t ∧ P xs t
  | [], pre, s, hxs, hs => ⟨s, rfl, by rwa [← hxs, List.append_nil]⟩
  | x :: post, pre, s, hxs, hs => by
    have hsplit : (pre ++ [x]) ++ post = xs := by rw [← hxs, List.append_assoc, List.singleton_append]
    obtain ⟨t, ht, hP⟩ := hf pre x s ⟨post, hsplit⟩ hs
    obtain ⟨u, hu, hQ⟩ := foldlM_rule_from hf post (pre ++ [x]) t hsplit hP
    exact ⟨u, by rw [List.foldlM_cons, ht]; exact hu, hQ⟩

/-- A loop over a list ends, and keeps an invariant that each round carries on by one element. -/
theorem foldlM_rule {s : σ} (h0 : P [] s)
    (hf : ∀ pre x s, pre ++ [x] <+: xs → P pre s → ∃ t, f s x = some t ∧ P (pre ++ [x]) t) :
    ∃ t, xs.foldlM f s = some t ∧ P xs t :=
  foldlM_rule_from hf xs [] s rfl h0

/-- A loop over a list that has ended has kept an invariant that each of its rounds carries on. -/
theorem foldlM_inv {s t : σ} (hf : ∀ pre x s t, P pre s → f s x = some t → P (pre ++ [x]) t) (h0 : P [] s)
    (h : xs.foldlM f s = some t) : P xs t := by
  induction xs using List.reverseRecOn generalizing t with
  | nil => exact Option.some.inj h ▸ h0
  | append_singleton xs x ih =>
    rw [List.foldlM_append] at h
    obtain ⟨u, hu, hlast⟩ := Option.bind_eq_some_iff.mp h
    rw [List.foldlM_cons] at hlast
    obtain ⟨v, hv, hend⟩ := Option.bind_eq_some_iff.mp hlast
    exact hf xs x u t (ih hu) (Option.some.inj hend ▸ hv)

end ForEach

theorem mapM_map_eq_some {α β γ : Type} {f : α → β} {g : β → Option γ} {h : α → γ} {l : List α}
    (hl : ∀ x ∈ l, g (f x) = some (h x)) : (l.map f).mapM g = some (l.map h) := by
  induction l with
  | nil => rfl
  | cons x l ih =>
    rw [List.map_cons, List.mapM_cons, hl x List.mem_cons_self, ih fun y hy => hl y (List.mem_cons_of_mem x hy)]
    rfl

/-! ### Loops that a measure bounds -/

section Iterate
variable {step : σ → Option σ} {m : σ → ℕ} {hm : ∀ s t, step s = some t → m t < m s}

def iterate (step : σ → Option σ) (m : σ → ℕ) (hm : ∀ s t, step s = some t → m t < m s) (s : σ) : σ :=
  match _h : step s with
  | none => s
  | some t => iterate step m hm t
termination_by m s
decreasing_by exact hm s t ‹_›

theorem iterate_of_none {s : σ} (h : step s = none) : iterate step m hm s = s := by
  rw [iterate]
  split
  · rfl
  · rename_i t ht
    rw [h] at ht
    cases ht

theorem iterate_of_some {s t : σ} (h : step s = some t) : iterate step m hm s = iterate step m hm t := by
  rw [iterate]
  split
  · rename_i hn
    rw [h] at hn
    cases hn
  · rename_i u hu
    rw [h] at hu
    cases hu
    rfl

/-- A property that each step keeps holds where the loop ends. -/
theorem iterate_rule {P : σ → Prop} (hstep : ∀ s t, P s → step s = some t → P t) (s : σ) (hs : P s) :
    P (iterate step m hm s) := by
  cases h : step s with
  | none => rwa [iterate_of_none h]
  | some t =>
    rw [iterate_of_some h]
    exact iterate_rule hstep t (hstep s t hs h)
termination_by m s
decreasing_by exact hm s t h

/-- Where the second loop can follow each step of the first, it passes through a state related to the one
    in which the first ends. -/
theorem iterate_sim {step' : τ → Option τ} {m' : τ → ℕ} {hm' : ∀ s t, step' s = some t → m' t < m' s}
    {R : σ → τ → Prop}
    (hstep : ∀ s s' t, R s t → step s = some s' → ∃ t', step' t = some t' ∧ R s' t') (s : σ) (t : τ) (h : R s t) :
    ∃ t', R (iterate step m hm s) t' ∧ iterate step' m' hm' t = iterate step' m' hm' t' := by
  cases hs : step s with
  | none => exact ⟨t, by rwa [iterate_of_none hs], rfl⟩
  | some s' =>
    obtain ⟨t', ht', hR⟩ := hstep s s' t h hs
    rw [iterate_of_some hs, iterate_of_some ht']
    exact iterate_sim hstep s' t' hR
termination_by m s
decreasing_by exact hm s s' hs

end Iterate

/-! ### Loops with several ways out -/

section Until
variable {ε : Type} {step : σ → Except ε σ} {m : σ → ℕ} {hm : ∀ s t, step s = .ok t → m t < m s}

/-- Repeats a step until it gives a way out, and returns it with the state before that step. -/
def loopUntil (step : σ → Except ε σ) (m : σ → ℕ) (hm : ∀ s t, step s = .ok t → m t < m s) (s : σ) : σ × ε :=
  match _h : step s with
  | .error e => (s, e)
  | .ok t => loopUntil step m hm t
termination_by m s
decreasing_by exact hm s t ‹_›

theorem loopUntil_of_error {s : σ} {e : ε} (h : step s = .error e) : loopUntil step m hm s = (s, e) := by
  rw [loopUntil]
  split
  · rename_i e' he'
    cases h.symm.trans he'
    rfl
  · rename_i t ht
    cases h.symm.trans ht

theorem loopUntil_of_ok {s t : σ} (h : step s = .ok t) : loopUntil step m hm s = loopUntil step m hm t := by
  rw [loopUntil]
  split
  · rename_i e he
    cases h.symm.trans he
  · rename_i u hu
    cases h.symm.trans hu
    rfl

/-- A property that each step keeps holds where the loop ends, and there the step gives the way out. -/
theorem loopUntil_rule (P : σ → Prop) (hstep : ∀ s t, P s → step s = .ok t → P t) (s : σ) (hs : P s) :
    P (loopUntil step m hm s).1 ∧ step (loopUntil step m hm s).1 = .error (loopUntil step m hm s).2 := by
  cases h : step s with
  | error e =>
    rw [loopUntil_of_error h]
    exact ⟨hs, h⟩
  | ok t =>
    rw [loopUntil_of_ok h]
    exact loopUntil_rule P hstep t (hstep s t hs h)
termination_by m s
decreasing_by exact hm s t h

end Until

end Loop
