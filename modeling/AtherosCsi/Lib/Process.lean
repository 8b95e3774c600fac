import Mathlib.Data.Nat.Notation
import Mathlib.Logic.Basic

/-! Programs that work through requests to a server. `Prog` is such a program, a tree of requests that
    branches on the answers; `run` plays it against a server that answers one request after the other.
    Where several programs share a server, one plays them request by request instead. `Always` tells what holds
    while a program runs, and `Follows` that it does what another one does, with requests of its own in between. -/

/-- A program that sends requests `Q`, gets answers `R` and returns an `α`, or crashes. -/
inductive Prog (Q R α : Type) where
  | ret (a : α)
  | call (q : Q) (k : R → Prog Q R α)
  | crash

namespace Prog
variable {Q R α β σ : Type}

def bind : Prog Q R α → (α → Prog Q R β) → Prog Q R β
  | .ret a, f => f a
  | .call q k, f => .call q fun r => (k r).bind f
  | .crash, _ => .crash

/-- The programs for the elements of a list, one after the other. -/
def forEach {ι : Type} (p : ι → Prog Q R Unit) : List ι → Prog Q R Unit
  | [] => .ret ()
  | i :: is => (p i).bind fun _ => forEach p is

def query? : Prog Q R α → Option Q
  | .call q _ => some q
  | _ => none

def run (exec : σ → Q → R × σ) : Prog Q R α → σ → Option (α × σ)
  | .ret a, s => some (a, s)
  | .call q k, s => (k (exec s q).1).run exec (exec s q).2
  | .crash, _ => none

theorem query?_eq_some {p : Prog Q R α} {q : Q} : p.query? = some q ↔ ∃ k, p = .call q k := by
  cases p <;> simp [query?]

@[simp] theorem run_call (exec : σ → Q → R × σ) (q : Q) (k : R → Prog Q R α) (s : σ) :
    (call q k).run exec s = (k (exec s q).1).run exec (exec s q).2 := rfl

@[simp] theorem bind_ret (a : α) (f : α → Prog Q R β) : (ret a).bind f = f a := rfl

@[simp] theorem bind_call (q : Q) (k : R → Prog Q R α) (f : α → Prog Q R β) :
    (call q k).bind f = call q fun r => (k r).bind f := rfl

theorem bind_assoc {γ : Type} (p : Prog Q R α) (f : α → Prog Q R β) (g : β → Prog Q R γ) :
    (p.bind f).bind g = p.bind fun a => (f a).bind g := by
  induction p with
  | ret a => rfl
  | call q k ih => exact congrArg (call q) (funext ih)
  | crash => rfl

theorem forEach_append {ι : Type} (p : ι → Prog Q R Unit) (is js : List ι) :
    forEach p (is ++ js) = (forEach p is).bind fun _ => forEach p js := by
  induction is with
  | nil => rfl
  | cons i is ih => rw [List.cons_append, forEach, forEach, bind_assoc, ih]

theorem run_bind (exec : σ → Q → R × σ) (p : Prog Q R α) (f : α → Prog Q R β) (s : σ) :
    (p.bind f).run exec s = (p.run exec s).bind fun r => (f r.1).run exec r.2 := by
  induction p generalizing s with
  | ret a => rfl
  | call q k ih => exact ih _ _
  | crash => rfl

/-! ### What a program sends -/

/-- Whatever the answers are, each request of the program satisfies `P`. -/
def Sends (P : Q → Prop) : Prog Q R α → Prop
  | .ret _ => True
  | .call q k => P q ∧ ∀ r, (k r).Sends P
  | .crash => True

theorem sends_call {P : Q → Prop} {q : Q} {k : R → Prog Q R α} : (call q k).Sends P ↔ P q ∧ ∀ r, (k r).Sends P := Iff.rfl

theorem Sends.bind {P : Q → Prop} {p : Prog Q R α} {f : α → Prog Q R β} (h : p.Sends P) (hf : ∀ a, (f a).Sends P) :
    (p.bind f).Sends P := by
  induction p with
  | ret a => exact hf a
  | call q k ih => exact ⟨h.1, fun r => ih r (h.2 r)⟩
  | crash => trivial

/-- Two servers that answer the requests of a program alike run it alike. -/
theorem Sends.run {τ : Type} {P : Q → Prop} {p : Prog Q R α} (h : p.Sends P) {exec : σ → Q → R × σ} {exec' : τ → Q → R × τ}
    {f : τ → σ} (hexec : ∀ t q, P q → exec (f t) q = ((exec' t q).1, f (exec' t q).2)) (t : τ) :
    p.run exec (f t) = (p.run exec' t).map fun r => (r.1, f r.2) := by
  induction p generalizing t with
  | ret a => rfl
  | call q k ih =>
    rw [run_call, run_call, hexec t q h.1]
    exact ih _ (h.2 _) _
  | crash => rfl

/-! ### What holds while a program runs -/

section Always
variable (exec : σ → Q → R × σ) (I : σ → Prop)

/-- After each request of the program the server satisfies `I`, and in the end it satisfies `post`. -/
def Always (post : α → σ → Prop) : Prog Q R α → σ → Prop
  | .ret a, s => post a s
  | .call q k, s => I (exec s q).2 ∧ (k (exec s q).1).Always post (exec s q).2
  | .crash, _ => True

/-- The server after `n` requests of the program, or after all of them. -/
def after : ℕ → Prog Q R α → σ → σ
  | n + 1, .call q k, s => after n (k (exec s q).1) (exec s q).2
  | _, _, s => s

variable {exec I} {post : α → σ → Prop} {post' : β → σ → Prop} {p : Prog Q R α} {s : σ}

theorem Always.bind {f : α → Prog Q R β} (h : p.Always exec I post s)
    (hf : ∀ a s, post a s → (f a).Always exec I post' s) : (p.bind f).Always exec I post' s := by
  induction p generalizing s with
  | ret a => exact hf a s h
  | call q k ih => exact ⟨h.1, ih _ h.2⟩
  | crash => trivial

theorem Always.after (h : p.Always exec I post s) (hs : I s) (n : ℕ) : I (p.after exec n s) := by
  induction n generalizing p s with
  | zero => cases p <;> exact hs
  | succ n ih =>
    cases p with
    | ret a => exact hs
    | call q k => exact ih h.2 h.1
    | crash => exact hs

theorem Always.run (h : p.Always exec I post s) {r : α × σ} (hr : p.run exec s = some r) : post r.1 r.2 := by
  induction p generalizing s with
  | ret a =>
    cases hr
    exact h
  | call q k ih => exact ih _ h.2 hr
  | crash => cases hr

/-- What is known of a run to its end holds there. -/
theorem Always.of_run {post₂ : α → σ → Prop} (h : p.Always exec I post s)
    (hrun : ∀ a t, p.run exec s = some (a, t) → post₂ a t) : p.Always exec I post₂ s := by
  induction p generalizing s with
  | ret a => exact hrun a s rfl
  | call q k ih => exact ⟨h.1, ih _ h.2 hrun⟩
  | crash => trivial

end Always

/-! ### A program that follows another one -/

section Follows
variable {Q' R' α' β' τ : Type} (total : Prop) (exec : σ → Q → R × σ) (I : σ → Prop) (exec' : τ → Q' → R' × τ)

/-- The first program, with its server, follows the second one: `I` holds after each of its requests, and where it
    returns, the second one returns too, and then `post` relates what they return and where the servers are. It may
    crash where the second one returns, but not if `total` holds. -/
def Follows (post : α → σ → α' → τ → Prop) (p : Prog Q R α) (s : σ) (p' : Prog Q' R' α') (t : τ) : Prop :=
  I s → p.Always exec I (fun a s => I s ∧ ∃ a' t', p'.run exec' t = some (a', t') ∧ post a s a' t') s ∧
    (total → p.run exec s = none → p'.run exec' t = none)

variable {total exec I exec'} {post : α → σ → α' → τ → Prop} {post' : β → σ → β' → τ → Prop}
  {p : Prog Q R α} {p' : Prog Q' R' α'} {s : σ} {t : τ}

theorem follows_ret {a : α} {a' : α'} (h : post a s a' t) : Follows total exec I exec' post (.ret a) s (.ret a') t :=
  fun hs => ⟨⟨hs, a', t, rfl, h⟩, fun _ hnone => absurd hnone (Option.some_ne_none _)⟩

theorem follows_crash (h : total → p'.run exec' t = none) : Follows total exec I exec' post .crash s p' t :=
  fun _ => ⟨trivial, fun htotal _ => h htotal⟩

/-- A request that the second program knows nothing of. -/
theorem Follows.request {q : Q} {k : R → Prog Q R α} {r : R} {u : σ} (hq : exec s q = (r, u)) (hI : I s → I u)
    (h : Follows total exec I exec' post (k r) u p' t) : Follows total exec I exec' post (.call q k) s p' t := by
  intro hs
  obtain ⟨halways, hnone⟩ := h (hI hs)
  simp only [Always, run_call, hq]
  exact ⟨⟨hI hs, halways⟩, hnone⟩

/-- A request of both. -/
theorem Follows.requests {q : Q} {k : R → Prog Q R α} {r : R} {u : σ} {q' : Q'} {k' : R' → Prog Q' R' α'}
    (hq : exec s q = (r, u)) (hI : I s → I u)
    (h : Follows total exec I exec' post (k r) u (k' (exec' t q').1) (exec' t q').2) :
    Follows total exec I exec' post (.call q k) s (.call q' k') t := by
  intro hs
  obtain ⟨halways, hnone⟩ := h (hI hs)
  simp only [Always, run_call, hq]
  exact ⟨⟨hI hs, halways⟩, hnone⟩

theorem Follows.bind {f : α → Prog Q R β} {f' : α' → Prog Q' R' β'} (h : Follows total exec I exec' post p s p' t)
    (hf : ∀ a s a' t, post a s a' t → Follows total exec I exec' post' (f a) s (f' a') t) :
    Follows total exec I exec' post' (p.bind f) s (p'.bind f') t := by
  intro hs
  obtain ⟨halways, hnone⟩ := h hs
  constructor
  · refine halways.bind fun a s ⟨hs, a', t', hrun, ha⟩ => ?_
    rw [run_bind, hrun]
    exact (hf a s a' t' ha hs).1
  · intro htotal hcrash
    rw [run_bind] at hcrash ⊢
    rcases hrun : p.run exec s with _ | ⟨a, s'⟩
    · rw [hnone htotal hrun]
      rfl
    · obtain ⟨hs', a', t', hrun', ha⟩ := halways.run hrun
      rw [hrun] at hcrash
      rw [hrun']
      exact (hf a s' a' t' ha hs').2 htotal hcrash

end Follows

end Prog
