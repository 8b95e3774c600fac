import AtherosCsi.Lib.Process
import Mathlib.Logic.Function.Basic

/-! Programs that share a server, which answers their requests one by one in any order. A schedule names the
    program that comes next, so a program that is never named again has been killed, and one that is named
    only after another has ended was started later.

    Each program is verified alone. `Keeps` says that its requests keep an invariant of the server and move
    it along a relation, if everything that happens between them does so too. -/

namespace Prog
variable {Q R α β σ : Type} (exec : σ → Q → R × σ) (I : σ → Prop) (le : σ → σ → Prop)

/-- From `s` on, each request of the program keeps `I` and moves the server along `le`, and the result
    satisfies `post` from then on. -/
def Keeps (post : α → σ → Prop) : Prog Q R α → σ → Prop
  | .ret a, s => ∀ s', le s s' → I s' → post a s'
  | .call q k, s => ∀ s', le s s' → I s' →
    I (exec s' q).2 ∧ le s' (exec s' q).2 ∧ (k (exec s' q).1).Keeps post (exec s' q).2
  | .crash, _ => True

variable {exec I le} {post post₂ : α → σ → Prop} {post' : β → σ → Prop} {p : Prog Q R α} {s t : σ}

theorem Keeps.mono (htrans : ∀ a b c, le a b → le b c → le a c) (h : p.Keeps exec I le post s) (hst : le s t) :
    p.Keeps exec I le post t := by
  cases p with
  | ret a => exact fun s' hs' => h s' (htrans s t s' hst hs')
  | call q k => exact fun s' hs' => h s' (htrans s t s' hst hs')
  | crash => trivial

theorem Keeps.imp (himp : ∀ a s, post a s → post₂ a s) (h : p.Keeps exec I le post s) : p.Keeps exec I le post₂ s := by
  induction p generalizing s with
  | ret a => exact fun s' hs' hI => himp a s' (h s' hs' hI)
  | call q k ih =>
    intro s' hs' hI
    obtain ⟨hI', hle, hk⟩ := h s' hs' hI
    exact ⟨hI', hle, ih _ hk⟩
  | crash => trivial

/-- A program that goes on with the result of another. -/
theorem Keeps.bind {f : α → Prog Q R β} (hrefl : ∀ s, le s s) (h : p.Keeps exec I le post s) (hI : I s)
    (hf : ∀ a s', I s' → post a s' → (f a).Keeps exec I le post' s') : (p.bind f).Keeps exec I le post' s := by
  induction p generalizing s with
  | ret a => exact hf a s hI (h s (hrefl s) hI)
  | call q k ih =>
    intro s' hs' hI'
    obtain ⟨hI'', hle, hk⟩ := h s' hs' hI'
    exact ⟨hI'', hle, ih _ hk hI''⟩
  | crash => trivial

end Prog

/-! ### The programs together -/

structure System (ι Q R α σ : Type) where
  server : σ
  prog : ι → Prog Q R α

namespace System
variable {ι Q R α σ : Type} [DecidableEq ι] (exec : σ → Q → R × σ)

/-- The next request of program `i`, if it has one. -/
def step (s : System ι Q R α σ) (i : ι) : System ι Q R α σ :=
  match s.prog i with
  | .call q k => ⟨(exec s.server q).2, Function.update s.prog i (k (exec s.server q).1)⟩
  | _ => s

def run (s : System ι Q R α σ) (schedule : List ι) : System ι Q R α σ := schedule.foldl (step exec) s

/-- Programs that each keep an invariant keep it together, in any order of their requests. -/
theorem run_keeps (I : σ → Prop) (le : σ → σ → Prop) (post : ι → α → σ → Prop) (hrefl : ∀ s, le s s)
    (htrans : ∀ a b c, le a b → le b c → le a c) (schedule : List ι) {s : System ι Q R α σ} (hI : I s.server)
    (hprog : ∀ i, (s.prog i).Keeps exec I le (post i) s.server) :
    I (s.run exec schedule).server ∧ le s.server (s.run exec schedule).server ∧
      ∀ i, ((s.run exec schedule).prog i).Keeps exec I le (post i) (s.run exec schedule).server := by
  induction schedule generalizing s with
  | nil => exact ⟨hI, hrefl _, hprog⟩
  | cons i is ih =>
    have hstep : I (s.step exec i).server ∧ le s.server (s.step exec i).server ∧
        ∀ j, ((s.step exec i).prog j).Keeps exec I le (post j) (s.step exec i).server := by
      have hi := hprog i
      unfold step
      split
      · rename_i q k hq
        rw [hq] at hi
        obtain ⟨hI', hle, hk⟩ := hi s.server (hrefl _) hI
        refine ⟨hI', hle, fun j => ?_⟩
        by_cases hj : j = i
        · subst hj
          simp only [Function.update_self]
          exact hk
        · simp only [Function.update_of_ne hj]
          exact (hprog j).mono htrans hle
      · exact ⟨hI, hrefl _, hprog⟩
    obtain ⟨hI', hle, hprog'⟩ := ih hstep.1 hstep.2.2
    exact ⟨hI', htrans _ _ _ hstep.2.1 hle, hprog'⟩

end System
