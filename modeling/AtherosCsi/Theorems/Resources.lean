import AtherosCsi.Resources
import AtherosCsi.Theorems.Connection
import AtherosCsi.Theorems.Outage
import AtherosCsi.Theorems.QueryBuffer
import AtherosCsi.Theorems.Startup

/-! The database receiver never uses memory, a result or a connection that it does not have, and never writes behind
    the end of a block, whatever the server and the library answer and wherever it is interrupted, as long as its
    packets have rows for `csi_data`. It keeps at most one query for good: where a statement fails its text is not
    freed, but then the connection is closed and no text is made any more. And it does what the program without
    pointers does. -/

namespace AtherosCsi
open Sql Loop

/-! ### The calls -/

/-- The program has used nothing that it had not, and it has little. -/
structure Ledger.Sound (l : Ledger) : Prop where
  misused : l.misused = false
  conns : l.conns.length ≤ 1
  results : l.results.length ≤ 1
  blocks : l.blocks.length ≤ 2

/-- Behind the pointer there is a block for a `csi_struct`. -/
def HoldsStatus (bs : List (ℕ × Block)) (p : ℕ) : Prop := ∃ b ∈ bs, b.1 = p ∧ sizeofCsiStruct ≤ b.2.size

theorem HoldsStatus.cons {bs : List (ℕ × Block)} {p : ℕ} (h : HoldsStatus bs p) (b : ℕ × Block) : HoldsStatus (b :: bs) p :=
  h.imp fun _ hb => ⟨List.mem_cons_of_mem _ hb.1, hb.2⟩

/-- What `PQresultStatus` and `PQgetvalue` find behind a pointer that may be null. -/
def resultOf (res : Option (ℕ × PGresult)) : PGresult := res.elim .fatalError Prod.snd

/-- The program keeps the ledger sound and follows a program without pointers. -/
abbrev Behaves {μ σ α β : Type} (env : Env μ σ) (post : α → Ledger → β → Prop) (p : LibProg α) (s : Ledger × μ × σ)
    (q : Prog (List Char) PGresult β) : Prop :=
  Prog.Follows env.Plenty env.call (fun s => s.1.Sound) env.serve (fun a s b t => post a s.1 b ∧ s.2.2 = t) p s q s.2.2

section Calls
variable {μ σ α β : Type} {env : Env μ σ} {post : α → Ledger → β → Prop} {q : Prog (List Char) PGresult β}
  {k : Reply → LibProg α} {n c p size : ℕ} {bs : List (ℕ × Block)} {rs : List (ℕ × PGresult)} {cs : List (ℕ × Bool)}
  {good : Bool} {mem : μ} {srv : σ}

namespace Env

theorem call_free {b : Block} : env.call (⟨n, (p, b) :: bs, rs, cs, false⟩, mem, srv) (.free p) =
    ({}, ⟨n, bs, rs, cs, false⟩, mem, srv) := by
  simp [call, done]

theorem call_access (hp : HoldsStatus bs p) : env.call (⟨n, bs, rs, cs, false⟩, mem, srv) (.access p sizeofCsiStruct) =
    ({}, ⟨n, bs, rs, cs, false⟩, mem, srv) := by
  have hany : (bs.any fun b => b.1 = p ∧ sizeofCsiStruct ≤ b.2.size) = true :=
    List.any_eq_true.mpr (hp.imp fun _ hb => ⟨hb.1, decide_eq_true hb.2⟩)
  simp only [call, hany, if_true, done]

theorem call_sprintf {text : List Char} {old : Option (List Char)} (hfits : text.length + 1 ≤ size) :
    env.call (⟨n, (p, ⟨size, old⟩) :: bs, rs, cs, false⟩, mem, srv) (.sprintf p text) =
      ({}, ⟨n, (p, ⟨size, some text⟩) :: bs, rs, cs, false⟩, mem, srv) := by
  simp [call, done, Ledger.write?, Nat.lt_of_succ_le hfits]

theorem call_append {text old : List Char} (hfits : (old ++ text).length + 1 ≤ size) :
    env.call (⟨n, (p, ⟨size, some old⟩) :: bs, rs, cs, false⟩, mem, srv) (.append p text) =
      ({}, ⟨n, (p, ⟨size, some (old ++ text)⟩) :: bs, rs, cs, false⟩, mem, srv) := by
  rw [List.length_append] at hfits
  simp [call, done, Ledger.text?, Ledger.write?, Nat.lt_of_succ_le hfits]

theorem call_pqErrorMessage : env.call (⟨n, bs, rs, [(c, good)], false⟩, mem, srv) (.pqErrorMessage (some c)) =
    ({}, ⟨n, bs, rs, [(c, good)], false⟩, mem, srv) := by
  simp [call, done]

theorem call_pqFinish : env.call (⟨n, bs, rs, [(c, good)], false⟩, mem, srv) (.pqFinish c) =
    ({}, ⟨n, bs, rs, [], false⟩, mem, srv) := by
  simp [call, done]

section Result
variable {res : Option (ℕ × PGresult)} {r : ℕ} {result : PGresult}

theorem call_pqResultStatus : env.call (⟨n, bs, res.toList, cs, false⟩, mem, srv) (.pqResultStatus (res.map Prod.fst)) =
    ({ status := (resultOf res).status }, ⟨n, bs, res.toList, cs, false⟩, mem, srv) := by
  rcases res with _ | ⟨r, result⟩
  · rfl
  · simp [call, done, resultOf]

theorem call_pqGetvalue : env.call (⟨n, bs, [(r, result)], cs, false⟩, mem, srv) (.pqGetvalue (some r)) =
    ({ pointer := result.value?.map fun _ => r }, ⟨n, bs, [(r, result)], cs, false⟩, mem, srv) := by
  simp [call, done]

theorem call_atoi {text : List Char} (htext : result.value? = some text) :
    env.call (⟨n, bs, [(r, result)], cs, false⟩, mem, srv) (.atoi r) =
      ({ number := atoi text }, ⟨n, bs, [(r, result)], cs, false⟩, mem, srv) := by
  simp [call, done, htext]

theorem call_pqClear : env.call (⟨n, bs, res.toList, cs, false⟩, mem, srv) (.pqClear (res.map Prod.fst)) =
    ({}, ⟨n, bs, [], cs, false⟩, mem, srv) := by
  rcases res with _ | ⟨r, result⟩
  · rfl
  · simp [call, done]

end Result

end Env

/-- A call that the server has nothing to do with. -/
theorem behaves_call {s : Ledger × μ × σ} {call : LibCall} {r : Reply} {l : Ledger} (hcall : env.call s call = (r, l, s.2))
    (hl : s.1.Sound → l.Sound) (hk : Behaves env post (k r) (l, s.2) q) : Behaves env post (.call call k) s q :=
  hk.request hcall hl

theorem behaves_bind {γ δ : Type} {post' : γ → Ledger → δ → Prop} {f : LibProg α} {s : Ledger × μ × σ} {g : α → LibProg γ}
    {g' : β → Prog (List Char) PGresult δ} (hf : Behaves env post f s q)
    (hg : ∀ a l mem srv b, post a l b → Behaves env post' (g a) (l, mem, srv) (g' b)) :
    Behaves env post' (f.bind g) s (q.bind g') := by
  refine hf.bind ?_
  rintro a ⟨l, mem, srv⟩ b _ ⟨h, rfl⟩
  exact hg a l mem srv b h

theorem behaves_malloc (hbs : bs.length ≤ 1)
    (hk : ∀ block n mem, (env.Plenty → block ≠ none) → Behaves env post (k { pointer := block })
      (⟨n, block.toList.map (·, ⟨size, none⟩) ++ bs, rs, cs, false⟩, mem, srv) q) :
    Behaves env post (.call (.malloc size) k) (⟨n, bs, rs, cs, false⟩, mem, srv) q := by
  rcases hmem : env.malloc mem size with ⟨_ | _, t⟩
  · refine Prog.Follows.request (r := {}) (u := (⟨n, bs, rs, cs, false⟩, t, srv)) (by simp only [Env.call, hmem]) id ?_
    exact hk none n t fun hplenty => absurd (hplenty mem size) (by rw [hmem]; exact Bool.false_ne_true)
  · have hl (hs : (⟨n, bs, rs, cs, false⟩ : Ledger).Sound) : (⟨n + 1, (n, ⟨size, none⟩) :: bs, rs, cs, false⟩ : Ledger).Sound :=
      ⟨rfl, hs.conns, hs.results, Nat.succ_le_succ hbs⟩
    refine Prog.Follows.request (r := { pointer := some n }) (u := (⟨n + 1, (n, ⟨size, none⟩) :: bs, rs, cs, false⟩, t, srv))
      (by simp only [Env.call, hmem]) hl ?_
    exact hk (some n) (n + 1) t fun _ => Option.some_ne_none n

/-- The null pointer ends the program, but only a library without memory for the block gives one. -/
theorem behaves_allocate {k : ℕ → LibProg α} (hbs : bs.length ≤ 1)
    (hk : ∀ p n mem, Behaves env post (k p) (⟨n, (p, ⟨size, none⟩) :: bs, rs, cs, false⟩, mem, srv) q) :
    Behaves env post (Owning.allocate size k) (⟨n, bs, rs, cs, false⟩, mem, srv) q := by
  refine behaves_malloc hbs fun block n mem hblock => ?_
  cases block with
  | none => exact Prog.follows_crash fun hplenty => absurd rfl (hblock hplenty)
  | some p => exact hk p n mem

theorem behaves_free {b : Block} (hk : Behaves env post (k {}) (⟨n, bs, rs, cs, false⟩, mem, srv) q) :
    Behaves env post (.call (.free p) k) (⟨n, (p, b) :: bs, rs, cs, false⟩, mem, srv) q :=
  behaves_call Env.call_free (fun hs => ⟨rfl, hs.conns, hs.results, Nat.le_trans (Nat.le_succ _) hs.blocks⟩) hk

theorem behaves_access (hp : HoldsStatus bs p) (hk : Behaves env post (k {}) (⟨n, bs, rs, cs, false⟩, mem, srv) q) :
    Behaves env post (.call (.access p sizeofCsiStruct) k) (⟨n, bs, rs, cs, false⟩, mem, srv) q :=
  behaves_call (Env.call_access hp) id hk

theorem behaves_sprintf {text : List Char} {old : Option (List Char)} (hfits : text.length + 1 ≤ size)
    (hk : Behaves env post (k {}) (⟨n, (p, ⟨size, some text⟩) :: bs, rs, cs, false⟩, mem, srv) q) :
    Behaves env post (.call (.sprintf p text) k) (⟨n, (p, ⟨size, old⟩) :: bs, rs, cs, false⟩, mem, srv) q :=
  behaves_call (Env.call_sprintf hfits) (fun hs => ⟨rfl, hs.conns, hs.results, hs.blocks⟩) hk

theorem behaves_append {text old : List Char} (hfits : (old ++ text).length + 1 ≤ size)
    (hk : Behaves env post (k {}) (⟨n, (p, ⟨size, some (old ++ text)⟩) :: bs, rs, cs, false⟩, mem, srv) q) :
    Behaves env post (.call (.append p text) k) (⟨n, (p, ⟨size, some old⟩) :: bs, rs, cs, false⟩, mem, srv) q :=
  behaves_call (Env.call_append hfits) (fun hs => ⟨rfl, hs.conns, hs.results, hs.blocks⟩) hk

theorem query?_block {text : List Char} :
    (⟨n, (p, ⟨size, some text⟩) :: bs, rs, cs, false⟩ : Ledger).query? (.block p) = some text := by
  simp [Ledger.query?, Ledger.text?]

theorem behaves_finish (hk : Behaves env post (k {}) (⟨n, bs, rs, [], false⟩, mem, srv) q) :
    Behaves env post (.call (.pqFinish c) k) (⟨n, bs, rs, [(c, good)], false⟩, mem, srv) q :=
  behaves_call Env.call_pqFinish (fun hs => ⟨rfl, Nat.zero_le 1, hs.results, hs.blocks⟩) hk

/-- Both programs send a text, which one of them finds in its memory. -/
theorem behaves_exec {query : Query} {text : List Char} {k' : PGresult → Prog (List Char) PGresult β}
    (hquery : (⟨n, bs, [], [(c, good)], false⟩ : Ledger).query? query = some text)
    (hk : ∀ res n srv, Behaves env post (k { pointer := res.map Prod.fst })
      (⟨n, bs, res.toList, [(c, good)], false⟩, mem, srv) (k' (resultOf res))) :
    Behaves env post (.call (.pqExec c query) k) (⟨n, bs, [], [(c, good)], false⟩, mem, srv) (.call text k') := by
  have hl : ∀ result, (⟨n, bs, [], [(c, good)], false⟩ : Ledger).Sound →
      (⟨n + 1, bs, [(n, result)], [(c, good)], false⟩ : Ledger).Sound :=
    fun _ hs => ⟨rfl, hs.conns, Nat.le_refl 1, hs.blocks⟩
  rcases hexec : env.exec srv text with ⟨_ | result, t⟩
  · refine Prog.Follows.requests (r := {}) (u := (⟨n, bs, [], [(c, good)], false⟩, mem, t)) (by simp [Env.call, hquery, hexec]) id ?_
    rw [Env.serve, hexec]
    exact hk none n t
  · refine Prog.Follows.requests (r := { pointer := some n }) (u := (⟨n + 1, bs, [(n, result)], [(c, good)], false⟩, mem, t))
      (by simp [Env.call, hquery, hexec]) (hl result) ?_
    rw [Env.serve, hexec]
    exact hk (some (n, result)) (n + 1) t

theorem behaves_clear (res : Option (ℕ × PGresult)) (hk : Behaves env post (k {}) (⟨n, bs, [], cs, false⟩, mem, srv) q) :
    Behaves env post (.call (.pqClear (res.map Prod.fst)) k) (⟨n, bs, res.toList, cs, false⟩, mem, srv) q :=
  behaves_call Env.call_pqClear (fun hs => ⟨rfl, hs.conns, Nat.zero_le 1, hs.blocks⟩) hk

/-! ### Between the calls -/

/-- Between two calls of `save_csi` there is no result, and `csi_status` and at most one other block, and that only when
    the connection is closed. -/
structure Ledger.Rest (csiStatus conn : Option ℕ) (l : Ledger) : Prop where
  misused : l.misused = false
  conns : l.conns.map Prod.fst = conn.toList
  results : l.results = []
  blocks : l.blocks.length + conn.toList.length ≤ 2
  csiStatus : ∀ p ∈ csiStatus, HoldsStatus l.blocks p

theorem Ledger.Rest.attached {csiStatus : Option ℕ} {l : Ledger} (h : l.Rest csiStatus (some c)) :
    ∃ n bs good, l = ⟨n, bs, [], [(c, good)], false⟩ ∧ bs.length ≤ 1 ∧ ∀ p ∈ csiStatus, HoldsStatus bs p := by
  obtain ⟨n, bs, rs, cs, misused⟩ := l
  obtain ⟨rfl, hcs, rfl, hbs, hp⟩ := h
  obtain ⟨⟨_, good⟩, rfl, rfl⟩ := List.map_eq_singleton_iff.mp hcs
  exact ⟨n, bs, good, rfl, Nat.le_of_succ_le_succ hbs, hp⟩

theorem Ledger.Rest.forget {csiStatus conn : Option ℕ} {l : Ledger} (h : l.Rest csiStatus conn) : l.Rest none conn :=
  ⟨h.misused, h.conns, h.results, h.blocks, fun _ hp => absurd hp (Option.not_mem_none _)⟩

/-- What is left of the pointer to the connection is whether it is null. The other number is an `int`. -/
structure Attached (csiStatus : Option ℕ) (r : ℤ × Option ℕ) (l : Ledger) (q : ℤ × Bool) : Prop where
  rest : l.Rest csiStatus r.2
  same : q = (r.1, r.2.isSome)
  int : -2 ^ 31 ≤ r.1 ∧ r.1 < 2 ^ 31

theorem attached_zero {csiStatus conn : Option ℕ} {l : Ledger} (h : l.Rest csiStatus conn) :
    Attached csiStatus (0, conn) l (0, conn.isSome) :=
  ⟨h, rfl, (by decide : (-2 ^ 31 : ℤ) ≤ 0 ∧ (0 : ℤ) < 2 ^ 31)⟩

theorem attached_one {csiStatus conn : Option ℕ} {l : Ledger} (h : l.Rest csiStatus conn) :
    Attached csiStatus (1, conn) l (1, conn.isSome) :=
  ⟨h, rfl, (by decide : (-2 ^ 31 : ℤ) ≤ 1 ∧ (1 : ℤ) < 2 ^ 31)⟩

/-- Each of the functions returns at once when the connection is closed. -/
theorem behaves_of_attached {csiStatus conn : Option ℕ} {f : Option ℕ → LibProg (ℤ × Option ℕ)} {q : Bool → PgProg}
    {s : Ledger × μ × σ} (hs : s.1.Rest csiStatus conn) (hnone : f none = .ret (0, none)) (hfalse : q false = .ret (0, false))
    (hsome : ∀ c n bs good mem srv, bs.length ≤ 1 → (∀ p ∈ csiStatus, HoldsStatus bs p) →
      Behaves env (Attached csiStatus) (f (some c)) (⟨n, bs, [], [(c, good)], false⟩, mem, srv) (q true)) :
    Behaves env (Attached csiStatus) (f conn) s (q conn.isSome) := by
  obtain ⟨l, mem, srv⟩ := s
  rcases conn with _ | c
  · rw [hnone, Option.isSome_none, hfalse]
    exact Prog.follows_ret ⟨attached_zero hs, rfl⟩
  · obtain ⟨n, bs, good, rfl, hbs, hp⟩ := hs.attached
    exact hsome c n bs good mem srv hbs hp

section Statement
variable {res : Option (ℕ × PGresult)} {csiStatus : Option ℕ}

/-- Where a statement fails, the result and the connection go, and the text stays. -/
theorem behaves_giveUp (hbs : bs.length ≤ 2) (hp : ∀ p ∈ csiStatus, HoldsStatus bs p) :
    Behaves env (Attached csiStatus) (Owning.giveUp (res.map Prod.fst) (some c))
      (⟨n, bs, res.toList, [(c, good)], false⟩, mem, srv) (.ret (0, false)) := by
  refine behaves_call Env.call_pqErrorMessage id (behaves_clear _ (behaves_finish ?_))
  exact Prog.follows_ret ⟨attached_zero ⟨rfl, rfl, rfl, hbs, hp⟩, rfl⟩

theorem PGresult.status_eq_commandOk {result : PGresult} : result.status = .commandOk ↔ result = .commandOk := by
  cases result <;> simp [PGresult.status]

/-- The end of a function that sends one statement for its effect. -/
theorem behaves_effect {b : Block} (hbs : bs.length ≤ 1) (hp : ∀ p ∈ csiStatus, HoldsStatus bs p) :
    Behaves env (Attached csiStatus)
      (.call (.pqResultStatus (res.map Prod.fst)) fun answer =>
        if answer.status ≠ .commandOk then Owning.giveUp (res.map Prod.fst) (some c)
        else .call (.free p) fun _ => .call (.pqClear (res.map Prod.fst)) fun _ => .ret (1, some c))
      (⟨n, (p, b) :: bs, res.toList, [(c, good)], false⟩, mem, srv)
      (if resultOf res ≠ .commandOk then .ret (0, false) else .ret (1, true)) := by
  refine behaves_call Env.call_pqResultStatus id ?_
  simp only [ne_eq, PGresult.status_eq_commandOk]
  split
  · exact behaves_giveUp (Nat.succ_le_succ hbs) fun p hmem => (hp p hmem).cons _
  · refine behaves_free (behaves_clear _ ?_)
    exact Prog.follows_ret ⟨attached_one ⟨rfl, rfl, rfl, Nat.succ_le_succ hbs, hp⟩, rfl⟩

end Statement

/-! ### The functions -/

theorem length_createTablesQuery : createTablesQuery.length + 1 ≤ 1200 := by decide +kernel

theorem behaves_csiInitTable {csiStatus conn : Option ℕ} {user : List Char}
    (huser : (createSequencesQuery user).length < 1200) {s : Ledger × μ × σ} (hs : s.1.Rest csiStatus conn) :
    Behaves env (Attached csiStatus) (Owning.csiInitTable conn user) s (csiInitTable conn.isSome user) := by
  refine behaves_of_attached (f := fun conn => Owning.csiInitTable conn user) (q := fun conn => csiInitTable conn user)
    hs rfl rfl fun c n bs good mem srv hbs hp => ?_
  rw [csiInitTable_open (written_of_le huser)]
  refine behaves_allocate hbs fun p n mem => behaves_sprintf huser ?_
  refine behaves_exec query?_block fun res n srv => behaves_clear _ ?_
  refine behaves_sprintf length_createTablesQuery ?_
  exact behaves_exec query?_block fun res n srv => behaves_effect hbs hp

namespace Owning

theorem snprintf_all (p : ℕ) (text : List Char) :
    snprintf (some p) (1 + text.length) text = .call (.sprintf p text) fun _ => .ret text.length := by
  rw [snprintf, if_neg (by omega), Nat.add_sub_cancel_left, List.take_length]

end Owning

theorem atoi_int (text : List Char) : -2 ^ 31 ≤ atoi text ∧ atoi text < 2 ^ 31 :=
  ⟨Int32.le_toInt _, Int32.toInt_lt _⟩

theorem behaves_saveCsiStatus {csiStatus : ℕ} {conn : Option ℕ} {st : CsiStruct} {s : Ledger × μ × σ}
    (hs : s.1.Rest (some csiStatus) conn) :
    Behaves env (Attached (some csiStatus)) (Owning.saveCsiStatus conn csiStatus st) s (saveCsiStatus conn.isSome st) := by
  refine behaves_of_attached (f := fun conn => Owning.saveCsiStatus conn csiStatus st) (q := fun conn => saveCsiStatus conn st)
    hs rfl rfl fun c n bs good mem srv hbs hp => ?_
  have hstatus := hp csiStatus rfl
  refine behaves_access hstatus (behaves_allocate hbs fun p n mem => ?_)
  refine behaves_access (hstatus.cons _) ?_
  rw [Owning.snprintf_all]
  refine behaves_sprintf (Nat.add_comm _ 1).le ?_
  refine behaves_exec query?_block fun res n srv => behaves_call Env.call_pqResultStatus id ?_
  simp only [ne_eq, PGresult.status_eq_commandOk]
  split
  · exact behaves_giveUp (Nat.succ_le_succ hbs) fun p hmem => (hp p hmem).cons _
  refine behaves_free (behaves_clear _ (behaves_exec rfl fun res n srv => behaves_call Env.call_pqResultStatus id ?_))
  rcases res with _ | ⟨r, _ | ⟨_ | value⟩ | _⟩
  · exact behaves_giveUp (Nat.le_succ_of_le hbs) hp
  · exact behaves_giveUp (Nat.le_succ_of_le hbs) hp
  · exact behaves_call Env.call_pqGetvalue id (Prog.follows_crash fun _ => rfl)
  · refine behaves_call Env.call_pqGetvalue id (behaves_call (Env.call_atoi rfl) id (behaves_clear (some _) ?_))
    exact Prog.follows_ret ⟨⟨⟨rfl, rfl, rfl, Nat.succ_le_succ hbs, hp⟩, rfl, atoi_int value⟩, rfl⟩
  · exact behaves_giveUp (Nat.le_succ_of_le hbs) hp

section Fills
variable (env n p size bs cs)

/-- The program takes the text in a block from one to another, and does nothing else. -/
def Fills (f : LibProg Unit) (text t : List Char) : Prop := ∀ (mem : μ) (srv : σ),
  Behaves env (fun _ l _ => l = ⟨n, (p, ⟨size, some t⟩) :: bs, [], cs, false⟩) f
    (⟨n, (p, ⟨size, some text⟩) :: bs, [], cs, false⟩, mem, srv) (.ret ())

variable {env n p size bs cs} {text t u : List Char}

theorem fills_ret (t : List Char) : Fills env n p size bs cs (.ret ()) t t := fun _ _ => Prog.follows_ret ⟨rfl, rfl⟩

theorem fills_append {piece : List Char} {f : LibProg Unit} (hfits : written size (text ++ piece) = some u)
    (hf : Fills env n p size bs cs f u t) : Fills env n p size bs cs (.call (.append p piece) fun _ => f) text t := by
  intro mem srv
  obtain rfl := written_eq_some hfits
  exact behaves_append (le_of_written hfits) (hf mem srv)

/-- Behind such a program comes another one. -/
theorem Fills.behaves {f : LibProg Unit} {g : Unit → LibProg α} (hf : Fills env n p size bs cs f text t)
    (hg : ∀ mem srv, Behaves env post (g ()) (⟨n, (p, ⟨size, some t⟩) :: bs, [], cs, false⟩, mem, srv) q) :
    Behaves env post (f.bind g) (⟨n, (p, ⟨size, some text⟩) :: bs, [], cs, false⟩, mem, srv) q := by
  show Behaves env post (f.bind g) _ ((Prog.ret ()).bind fun _ => q)
  refine behaves_bind (hf mem srv) ?_
  rintro _ _ mem srv _ rfl
  exact hg mem srv

theorem Fills.bind {f g : LibProg Unit} (hf : Fills env n p size bs cs f text u) (hg : Fills env n p size bs cs g u t) :
    Fills env n p size bs cs (f.bind fun _ => g) text t := fun _ _ => hf.behaves hg

/-- A loop of the program goes along with a loop on the text. -/
theorem fills_forEach {hi : ℕ} {f : ℕ → LibProg Unit} {g : BitVec 32 → List Char → Option (List Char)} (hhi : hi < 2 ^ 32)
    (hf : ∀ i < hi, ∀ x y, g (BitVec.ofNat 32 i) x = some y → Fills env n p size bs cs (f i) x y)
    (h : forUp 32 0 hi g text = some t) : Fills env n p size bs cs (Prog.forEach f (List.range hi)) text t := by
  refine forUp_inv (fun i t => Fills env n p size bs cs (Prog.forEach f (List.range i)) text t) hhi (fills_ret text) ?_ h
  intro i x y hi hx hxy
  rw [List.range_succ, Prog.forEach_append]
  exact hx.bind ((hf i hi x y hxy).bind (fills_ret y))

variable {id : ℤ} {st : CsiStruct} {m : CsiMatrix}

theorem fills_appendCell {a s c : ℕ} (h : (appendCell m a s c text).bind (written size) = some t) :
    Fills env n p size bs cs (Owning.appendCell p m a s c) text t := by
  obtain ⟨u, hu, ht⟩ := Option.bind_eq_some_iff.mp h
  obtain ⟨z, hz, hu⟩ := Option.bind_eq_some_iff.mp hu
  obtain rfl := Option.some.inj hu
  rw [Owning.appendCell, hz]
  exact fills_append ht (fills_ret t)

theorem fills_appendRow {s a : ℕ} (h : appendRowIn size id st m s a text = some t) :
    Fills env n p size bs cs (Owning.appendRow p id st m s a) text t := by
  obtain ⟨head, hhead, h⟩ := Option.bind_eq_some_iff.mp h
  obtain ⟨cells, hcells, h⟩ := Option.bind_eq_some_iff.mp h
  have hnc := st.nc.toNat_lt
  refine fills_append hhead (Fills.bind ?_ (fills_append h (fills_ret t)))
  refine fills_forEach (by omega) (fun c hc x y hxy => ?_) hcells
  rw [toNat_counter (by omega)] at hxy
  exact fills_appendCell hxy

theorem fills_rows (h : forUp 32 0 st.numTones.toNat (fun subcarrier => forUp 32 0 st.nr.toNat fun antenna =>
    appendRowIn size id st m subcarrier.toNat antenna.toNat) text = some t) :
    Fills env n p size bs cs (Prog.forEach (fun subcarrier => Prog.forEach (Owning.appendRow p id st m subcarrier)
      (List.range st.nr.toNat)) (List.range st.numTones.toNat)) text t := by
  have hnr := st.nr.toNat_lt
  have hnt := st.numTones.toNat_lt
  refine fills_forEach (by omega) (fun s hs x y hxy => fills_forEach (by omega) (fun a ha x y hxy => ?_) hxy) h
  rw [toNat_counter (by omega), toNat_counter (by omega)] at hxy
  exact fills_appendRow hxy

end Fills

/-- What `save_csi_matrix` needs: rows, and a matrix that was unpacked. -/
structure Call.Fits (c : Call) : Prop where
  rows : c.HasCsi
  dims : DimsFit c.csiStatus.nr.toNat c.csiStatus.nc.toNat c.csiStatus.numTones.toNat
  tenBits : ∀ a < c.csiStatus.nr.toNat, ∀ s < c.csiStatus.numTones.toNat, TenBitCells c.csiMatrix a s c.csiStatus.nc.toNat

theorem behaves_saveCsiMatrix {csiStatus : ℕ} {conn : Option ℕ} {id : ℤ} (hid : -2 ^ 31 ≤ id ∧ id < 2 ^ 31) {call : Call}
    (hcall : call.Fits) {s : Ledger × μ × σ} (hs : s.1.Rest (some csiStatus) conn) :
    Behaves env (Attached (some csiStatus)) (Owning.saveCsiMatrix conn id csiStatus call.csiStatus call.csiMatrix) s
      (saveCsiMatrix conn.isSome id call.csiStatus call.csiMatrix) := by
  refine behaves_of_attached (f := fun conn => Owning.saveCsiMatrix conn id csiStatus call.csiStatus call.csiMatrix)
    (q := fun conn => saveCsiMatrix conn id call.csiStatus call.csiMatrix) hs rfl rfl fun c n bs good mem srv hbs hp => ?_
  obtain ⟨text, hquery, hin⟩ := csiDataQueryIn_eq hid hcall.dims hcall.tenBits hcall.rows
  obtain ⟨head, hhead, hrows⟩ := Option.bind_eq_some_iff.mp hin
  obtain rfl := written_eq_some hhead
  rw [saveCsiMatrix, if_neg (by decide), hquery]
  refine behaves_access (hp csiStatus rfl) (behaves_allocate hbs fun p n mem => ?_)
  refine behaves_sprintf (le_of_written hhead) ((fills_rows hrows).behaves fun mem srv => ?_)
  exact behaves_exec query?_block fun res n srv => behaves_effect hbs hp

/-- Without a row the first text is too long already: 28 bytes with the NUL, in a block of 27. -/
theorem saveCsiMatrix_overflows {csiStatus : ℕ} (hp : HoldsStatus bs csiStatus) {st : CsiStruct}
    (hrows : st.numTones.toNat * st.nr.toNat = 0) (hmem : (env.malloc mem 27).1 = true) (id : ℤ) (m : CsiMatrix) :
    ((Owning.saveCsiMatrix (some c) id csiStatus st m).after env.call 3
      (⟨n, bs, [], [(c, good)], false⟩, mem, srv)).1.misused = true := by
  have hmalloc : env.call (⟨n, bs, [], [(c, good)], false⟩, mem, srv) (.malloc 27) =
      ({ pointer := some n }, ⟨n + 1, (n, ⟨27, none⟩) :: bs, [], [(c, good)], false⟩, (env.malloc mem 27).2, srv) := by
    rcases hblock : env.malloc mem 27 with ⟨_ | _, t⟩
    · rw [hblock] at hmem
      cases hmem
    · simp only [Env.call, hblock]
  have hsprintf : (env.call (⟨n + 1, (n, ⟨27, none⟩) :: bs, [], [(c, good)], false⟩, (env.malloc mem 27).2, srv)
      (.sprintf n "INSERT INTO csi_data VALUES".toList)).2.1.misused = true := by
    simp [Env.call, Env.done, Ledger.write?]
  simp only [Owning.saveCsiMatrix, Owning.allocate, hrows, Nat.zero_mul, Nat.add_zero, Prog.after, Env.call_access hp, hmalloc]
  exact hsprintf

theorem behaves_saveCsi {csiStatus : ℕ} {conn : Option ℕ} {call : Call} (hcall : call.Fits) {s : Ledger × μ × σ}
    (hs : s.1.Rest (some csiStatus) conn) :
    Behaves env (Attached (some csiStatus)) (Owning.saveCsi conn csiStatus call.csiStatus call.csiMatrix) s
      (saveCsi conn.isSome call.csiStatus call.csiMatrix) := by
  refine behaves_bind (behaves_saveCsiStatus hs) ?_
  rintro ⟨id, conn⟩ l mem srv _ ⟨hs, rfl, hid⟩
  dsimp only
  split
  · exact Prog.follows_ret ⟨attached_zero hs, rfl⟩
  refine behaves_bind (behaves_saveCsiMatrix hid hcall hs) ?_
  rintro ⟨saved, conn⟩ l mem srv _ ⟨hs, rfl, -⟩
  dsimp only
  split
  · exact Prog.follows_ret ⟨attached_zero hs, rfl⟩
  · exact Prog.follows_ret ⟨attached_one hs, rfl⟩

/-! ### The program -/

/-- Each packet that the program decodes has a row for `csi_data`. -/
def AllHaveCsi (h : Host) (g : DbGlobals) : List Round → Prop
  | [] => True
  | r :: rs =>
    match decodeRound h g r with
    | none => True
    | some (g, call) => (∀ c ∈ call, c.HasCsi) ∧ AllHaveCsi h g rs

/-- A matrix that was unpacked in this round stands in its array and has numbers of ten bits. -/
theorem fits_of_decodeRound {h : Host} {g g' : DbGlobals} {r : Round} {call : Call} (hround : decodeRound h g r = some (g', some call))
    (hrows : call.HasCsi) : call.Fits := by
  unfold decodeRound at hround
  dsimp only at hround
  split at hround
  · obtain ⟨st, -, hround⟩ := Option.bind_eq_some_iff.mp hround
    obtain ⟨⟨dataBuf, m⟩, hpayload, hround⟩ := Option.bind_eq_some_iff.mp hround
    obtain ⟨-, hcall⟩ := Prod.mk.inj (Option.some.inj hround)
    obtain rfl := Option.some.inj hcall
    obtain ⟨hpayloadFits, hdims⟩ := recordCsiPayload_range hpayload
    rw [recordCsiPayload_eq _ _ hpayloadFits hdims] at hpayload
    obtain ⟨-, rfl⟩ := Prod.mk.inj (Option.some.inj hpayload)
    refine ⟨hrows, hdims, fun a ha s hs c hc => ?_⟩
    dsimp only at ha hs hc
    have hin : st.nr.toNat ≤ 3 ∧ st.nc.toNat ≤ 3 ∧ st.numTones.toNat ≤ 114 := by
      unfold DimsFit at hdims
      omega
    exact tenBitCells_filled g.csiMatrix ha hs hin.1 hin.2.1 hin.2.2 c hc
  · cases hround

theorem behaves_recvRounds {h : Host} {csiStatus conn : Option ℕ} {g : DbGlobals} {rounds : List Round}
    (hrows : AllHaveCsi h g rounds) (hnull : env.Plenty → csiStatus ≠ none) {s : Ledger × μ × σ} (hs : s.1.Rest csiStatus conn) :
    Behaves env (fun conn l isOpen => l.Rest none conn ∧ isOpen = conn.isSome)
      (Owning.recvRounds h csiStatus g conn rounds) s (recvRounds h g conn.isSome rounds) := by
  induction rounds generalizing g conn s with
  | nil => exact Prog.follows_ret ⟨⟨hs.forget, rfl⟩, rfl⟩
  | cons r rounds ih =>
    unfold AllHaveCsi at hrows
    unfold Owning.recvRounds recvRounds
    rcases hround : decodeRound h g r with _ | ⟨g', _ | call⟩
    · exact Prog.follows_crash fun _ => rfl
    · rw [hround] at hrows
      exact ih hrows.2 hs
    · rw [hround] at hrows
      obtain ⟨hcall, hrest⟩ := hrows
      cases csiStatus with
      | none => exact Prog.follows_crash fun hplenty => absurd rfl (hnull hplenty)
      | some p =>
        have hstatus := hs.csiStatus p rfl
        obtain ⟨⟨n, bs, rs, cs, misused⟩, mem, srv⟩ := s
        obtain rfl : misused = false := hs.misused
        refine behaves_access hstatus (behaves_bind (behaves_saveCsi (fits_of_decodeRound hround (hcall call rfl)) hs) ?_)
        rintro ⟨saved, conn⟩ l mem srv _ ⟨hs, rfl, -⟩
        exact ih hrest hs

theorem behaves_pgConnect {p : PgParams} (hlen : p.namesLen < 2 ^ 31 - 64) :
    Behaves env (fun r l q => (∃ n good, l = ⟨n, [], [], r.2.toList.map (·, good), false⟩) ∧ q = (r.1, r.2.isSome))
      (Owning.pgConnect p) (.empty, mem, srv)
      (.ret (if (env.connectdb p.connectionString).getD false then (1, true) else (0, false))) := by
  have hfull := p.length_eq_strLen hlen
  have hlocal : env.call (.empty, mem, srv) (.sprintfLocal p.strLen.toInt.toNat p.connectionString) = ({}, .empty, mem, srv) := by
    have hfits : p.connectionString.length + 1 ≤ p.strLen.toInt.toNat := by omega
    simp only [Env.call, if_pos hfits, Env.done]
  have hconn : ∀ good, (Ledger.empty).Sound → (⟨1, [], [], [(0, good)], false⟩ : Ledger).Sound :=
    fun _ _ => ⟨rfl, Nat.le_refl 1, Nat.zero_le 1, Nat.zero_le 2⟩
  refine behaves_call hlocal id ?_
  rcases hdb : env.connectdb p.connectionString with _ | good
  · have hnull : env.call (.empty, mem, srv) (.pqConnectdb p.connectionString) = ({}, .empty, mem, srv) := by simp only [Env.call, hdb]
    refine behaves_call hnull id (behaves_call rfl id ?_)
    refine behaves_call rfl id (Prog.follows_ret ⟨⟨⟨0, false, rfl⟩, rfl⟩, rfl⟩)
  · have hopen : env.call (.empty, mem, srv) (.pqConnectdb p.connectionString) =
        ({ pointer := some 0 }, ⟨1, [], [], [(0, good)], false⟩, mem, srv) := by
      simp only [Env.call, hdb]
      rfl
    refine behaves_call hopen (hconn good) (behaves_call (r := { good }) (by simp [Env.call, Env.done]) id ?_)
    cases good with
    | false =>
      refine behaves_call Env.call_pqErrorMessage id (behaves_finish ?_)
      exact Prog.follows_ret ⟨⟨⟨1, false, rfl⟩, rfl⟩, rfl⟩
    | true => exact Prog.follows_ret ⟨⟨⟨1, true, rfl⟩, rfl⟩, rfl⟩

theorem behaves_recvMain (env : Env μ σ) (mem : μ) (srv : σ) {h : Host} {m : Startup} (hlen : m.params.namesLen < 2 ^ 31 - 64)
    (huser : (createSequencesQuery m.params.user).length < 1200) {g : DbGlobals} {rounds : List Round}
    (hrows : AllHaveCsi h g rounds) :
    Behaves env (fun conn l isOpen => l.Rest none conn ∧ isOpen = conn.isSome) (Owning.recvMain h m g rounds)
      (.empty, mem, srv) (recvMain h (env.startup m) g rounds) := by
  have hmain : recvMain h (env.startup m) g rounds =
      (Prog.ret (if (env.connectdb m.params.connectionString).getD false then (1, true) else (0, false))).bind fun r : ℤ × Bool =>
        if m.argc = 2 ∧ m.fopen = false then .crash
        else if m.argc > 2 then .ret r.2
        else if m.openCsiDevice < 0 then .ret r.2
        else (csiInitTable r.2 m.params.user).bind fun res => recvRounds h g res.2 rounds := by
    rw [recvMain, Env.startup, pgConnect_eq _ _ hlen]
    rfl
  rw [hmain]
  refine behaves_bind (behaves_pgConnect hlen) ?_
  rintro ⟨returned, conn⟩ _ mem srv _ ⟨⟨n, good, rfl⟩, rfl⟩
  have hbs : ([] : List (ℕ × Block)).length ≤ 1 := Nat.zero_le 1
  refine behaves_malloc hbs fun block n mem hblock => ?_
  have hrest : Ledger.Rest block conn ⟨n, block.toList.map (·, ⟨sizeofCsiStruct, none⟩) ++ [], [], conn.toList.map (·, good), false⟩ := by
    have hblocks := block.length_toList_le
    have hconns := conn.length_toList_le
    refine ⟨rfl, by cases conn <;> rfl, rfl, ?_, ?_⟩
    · simp only [List.append_nil, List.length_map]
      omega
    · rintro p rfl
      exact ⟨_, List.mem_singleton_self _, rfl, Nat.le_refl _⟩
  dsimp only
  split
  · exact Prog.follows_crash fun _ => rfl
  split
  · exact Prog.follows_ret ⟨⟨hrest.forget, rfl⟩, rfl⟩
  split
  · exact Prog.follows_ret ⟨⟨hrest.forget, rfl⟩, rfl⟩
  · refine behaves_bind (behaves_csiInitTable huser hrest) ?_
    rintro ⟨made, conn⟩ l mem srv _ ⟨hs, rfl, -⟩
    exact behaves_recvRounds hrows hblock hs

end Calls

section Main
variable {μ σ : Type} (h : Host) (m : Startup) (g : DbGlobals) (rounds : List Round) (env : Env μ σ) (mem : μ) (srv : σ)
  (hlen : m.params.namesLen < 2 ^ 31 - 64) (huser : (createSequencesQuery m.params.user).length < 1200)
  (hrows : AllHaveCsi h g rounds)

include hlen huser hrows

/-- Whatever the library and the server do, after any number of calls the program has used nothing that it had
    not, and it holds at most one connection, one result and two blocks of memory. When it ends, it has no result,
    and its pointer to a connection is null or the one connection that is open. -/
theorem recvMain_resources :
    (∀ n, ((Owning.recvMain h m g rounds).after env.call n (.empty, mem, srv)).1.Sound) ∧
      ∀ r, (Owning.recvMain h m g rounds).run env.call (.empty, mem, srv) = some r → r.2.1.Rest none r.1 := by
  have hempty : Ledger.empty.Sound := ⟨rfl, Nat.zero_le 1, Nat.zero_le 1, Nat.zero_le 2⟩
  obtain ⟨halways, -⟩ := behaves_recvMain env mem srv hlen huser hrows hempty
  refine ⟨fun n => halways.after hempty n, fun r hr => ?_⟩
  obtain ⟨-, _, _, -, ⟨hrest, -⟩, -⟩ := halways.run hr
  exact hrest

/-- Where the program ends, it has done to the server what it does when its pointers are forgotten, and the
    connection is open or closed alike. With memory for everything it ends where that program ends. -/
theorem recvMain_forget :
    (∀ r, (Owning.recvMain h m g rounds).run env.call (.empty, mem, srv) = some r →
      (recvMain h (env.startup m) g rounds).run env.serve srv = some (r.1.isSome, r.2.2.2)) ∧
    (env.Plenty → ((Owning.recvMain h m g rounds).run env.call (.empty, mem, srv)).map (fun r => (r.1.isSome, r.2.2.2)) =
      (recvMain h (env.startup m) g rounds).run env.serve srv) := by
  have hempty : Ledger.empty.Sound := ⟨rfl, Nat.zero_le 1, Nat.zero_le 1, Nat.zero_le 2⟩
  obtain ⟨halways, hcrash⟩ := behaves_recvMain env mem srv hlen huser hrows hempty
  have hends : ∀ r, (Owning.recvMain h m g rounds).run env.call (.empty, mem, srv) = some r →
      (recvMain h (env.startup m) g rounds).run env.serve srv = some (r.1.isSome, r.2.2.2) := by
    intro r hr
    obtain ⟨-, isOpen, t, hrun, ⟨-, rfl⟩, rfl⟩ := halways.run hr
    exact hrun
  refine ⟨hends, fun hplenty => ?_⟩
  rcases hrun : (Owning.recvMain h m g rounds).run env.call (.empty, mem, srv) with _ | r
  · exact (hcrash hplenty hrun).symm
  · exact (hends r hrun).symm

end Main

/-! A first run on a new database, with one packet. -/

/-- Memory for everything, and a server that is there. -/
def plainEnv : Env Unit Cluster :=
  ⟨fun _ _ => (true, ()), fun _ => some true, fun s text => (some (s.exec text).1, (s.exec text).2)⟩

theorem allHaveCsi_one : AllHaveCsi Host.x86 zeroGlobals [oneRound] := by
  have hlen : 0 < onePacket.length ∧ onePacket.length ≤ 4096 := by decide
  obtain ⟨data, m, hround⟩ := decodeRound_packet Host.x86 zeroGlobals hlen ⟨0, 0⟩ (Eq.refl (BufAddr.zero.overlay onePacket))
    (Eq.refl zeroGlobals.csiStatus.csiLen) (by decide) (by decide) (by decide)
  unfold AllHaveCsi
  rw [oneRound, hround]
  refine ⟨fun c hc => ?_, trivial⟩
  obtain rfl := Option.mem_some_iff.mp hc
  exact (by decide : 1 ≤ (BufAddr.byte (BufAddr.zero.overlay onePacket) 17).toNat ∧
    1 ≤ (BufAddr.byte (BufAddr.zero.overlay onePacket) 16).toNat)

theorem recvMain_resources_one :
    (∀ n, ((Owning.recvMain Host.x86 plainStartup zeroGlobals [oneRound]).after plainEnv.call n (.empty, (), newCluster)).1.Sound) ∧
      ∃ r, (Owning.recvMain Host.x86 plainStartup zeroGlobals [oneRound]).run plainEnv.call (.empty, (), newCluster) = some r ∧
        r.1 = some 0 ∧ r.2.1.Rest none (some 0) := by
  obtain ⟨hsound, hrest⟩ := recvMain_resources Host.x86 plainStartup zeroGlobals [oneRound] plainEnv () newCluster (by decide)
    (by decide +kernel) allHaveCsi_one
  have hrun : ((Owning.recvMain Host.x86 plainStartup zeroGlobals [oneRound]).run plainEnv.call (.empty, (), newCluster)).map
      (fun r => r.1) = some (some 0) := by decide +kernel
  obtain ⟨r, hr, hconn⟩ := Option.map_eq_some_iff.mp hrun
  exact ⟨hsound, r, hr, hconn, hconn ▸ hrest r hr⟩

theorem recvMain_forget_one : plainEnv.Plenty ∧
    ((Owning.recvMain Host.x86 plainStartup zeroGlobals [oneRound]).run plainEnv.call (.empty, (), newCluster)).map
      (fun r => (r.1.isSome, r.2.2.2)) = (recvMain Host.x86 (plainEnv.startup plainStartup) zeroGlobals [oneRound]).run plainEnv.serve newCluster := by
  have hplenty : plainEnv.Plenty := fun _ _ => rfl
  exact ⟨hplenty, (recvMain_forget Host.x86 plainStartup zeroGlobals [oneRound] plainEnv () newCluster (by decide)
    (by decide +kernel) allHaveCsi_one).2 hplenty⟩

end AtherosCsi
