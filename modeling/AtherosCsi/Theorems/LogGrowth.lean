import AtherosCsi.ReadCsi
import AtherosCsi.ReadLogFile

/-! Reading a log that grows. A round that stores a record looks at no byte behind that record, so it runs
    in the same way on every file that continues the one at hand; the longer file only adds records. -/

namespace AtherosCsi
open LittleEndian Loop

/-! ### The cells -/

theorem cellSet_of_le {α : Type} {ret : List (Option α)} {i : ℕ} (x : α) (h : i ≤ ret.length) :
    (cellSet ret i x).take (i + 1) = ret.take i ++ [some x] ∧ i + 1 ≤ (cellSet ret i x).length := by
  unfold cellSet
  split
  · rename_i hi
    refine ⟨?_, by simp; omega⟩
    rw [List.take_add_one, List.take_set_of_le (Nat.le_refl i)]
    simp [hi]
  · have hi : i = ret.length := by omega
    subst hi
    simp

section Reader
variable {γ : Type} {readCsi : ℕ → List UInt8 → Option ℕ → Option ℕ → Option ℕ → γ}

def ReaderState.stored (s : ReaderState γ) : List (Option (LogEntry γ)) := s.ret.take s.count

theorem readStep_eq_some {len : ℕ} {s t : ReaderState γ} (h : readStep readCsi len s = some t) :
    ∃ e c, readBlock readCsi len s.cursor = .ok (e, c) ∧ t = ⟨c, s.count + 1, cellSet s.ret s.count e⟩ := by
  unfold readStep at h
  split at h
  · cases h
  · rename_i e c hb
    exact ⟨e, c, hb, (Option.some.inj h).symm⟩

theorem readStep_of_ok {len : ℕ} {s : ReaderState γ} {e : LogEntry γ} {c : Cursor}
    (h : readBlock readCsi len s.cursor = .ok (e, c)) :
    readStep readCsi len s = some ⟨c, s.count + 1, cellSet s.ret s.count e⟩ := by
  simp only [readStep, h]

theorem readStep_stored {len : ℕ} {s t : ReaderState γ} (hs : s.count ≤ s.ret.length)
    (h : readStep readCsi len s = some t) :
    ∃ e, t.stored = s.stored ++ [some e] ∧ t.count = s.count + 1 ∧ t.count ≤ t.ret.length := by
  obtain ⟨e, c, -, rfl⟩ := readStep_eq_some h
  obtain ⟨htake, hlen⟩ := cellSet_of_le e hs
  exact ⟨e, htake, rfl, hlen⟩

variable (readCsi) in
/-- The loop keeps the records stored before it, and never counts more than there are cells. -/
theorem readLoop_stored (len : ℕ) (s : ReaderState γ) (hs : s.count ≤ s.ret.length) :
    s.stored <+: (readLoop readCsi len s).stored ∧ s.count ≤ (readLoop readCsi len s).count ∧
      (readLoop readCsi len s).count ≤ (readLoop readCsi len s).ret.length := by
  refine iterate_rule (P := fun t => s.stored <+: t.stored ∧ s.count ≤ t.count ∧ t.count ≤ t.ret.length) ?_ s
    ⟨List.prefix_rfl, Nat.le_refl _, hs⟩
  rintro t u ⟨hpre, hcount, ht⟩ hstep
  obtain ⟨e, hstored, hsucc, hu⟩ := readStep_stored ht hstep
  exact ⟨hstored ▸ hpre.trans (List.prefix_append _ _), by omega, hu⟩

/-- Once a record is stored, `read_log_file` returns all of them but the last, and at least one. -/
theorem readLogFile_of_stored {file : List UInt8}
    (h : 1 ≤ (readLoop readCsi file.length (readStart γ file)).count) :
    readLogFile readCsi file = .ok ((readLoop readCsi file.length (readStart γ file)).stored.take
      (max 1 ((readLoop readCsi file.length (readStart γ file)).count - 1))) := by
  obtain ⟨-, -, hlen⟩ := readLoop_stored readCsi file.length (readStart γ file) (Nat.zero_le _)
  simp only [readLogFile, ReaderState.stored, List.take_take]
  generalize readLoop readCsi file.length (readStart γ file) = s at h hlen ⊢
  split
  · have hmany : min (max 1 (s.count - 1)) s.count = s.count - 1 := by omega
    rw [hmany]
  · have hone : min (max 1 (s.count - 1)) s.count = 1 := by omega
    rw [hone]
    cases hret : s.ret with
    | nil => simp [hret] at hlen; omega
    | cons e es => simp

/-- A loop that stored nothing leaves `read_log_file` with one cell that was never assigned, or with none. -/
theorem readLogFile_of_not_stored {file : List UInt8}
    (h : (readLoop readCsi file.length (readStart γ file)).count = 0) {xs : List (Option (LogEntry γ))}
    (hxs : readLogFile readCsi file = .ok xs) : xs = [none] := by
  have hsame : (readLoop readCsi file.length (readStart γ file)).count = 0 →
      readLoop readCsi file.length (readStart γ file) = readStart γ file := by
    refine iterate_rule (P := fun t => t.count = 0 → t = readStart γ file) ?_ _ fun _ => rfl
    intro t u _ hstep hu
    obtain ⟨e, c, -, rfl⟩ := readStep_eq_some hstep
    exact absurd hu (Nat.succ_ne_zero _)
  simp only [readLogFile, hsame h] at hxs
  simp only [readStart] at hxs
  cases hn : (file.length + 419) / 420 with
  | zero => simp [hn] at hxs
  | succ n => simpa [hn, List.replicate_succ] using hxs.symm

/-! ### More bytes behind the cursor -/

def Cursor.extend (c : Cursor) (more : List UInt8) : Cursor := ⟨c.rest ++ more, c.cur⟩

/-- Where `n` bytes are left, `m` uses no more than these, so it does not see what follows them. -/
def Local {α : Type} (n : ℕ) (m : StateM Cursor α) : Prop :=
  ∀ c more, n ≤ c.rest.length →
    m (c.extend more) = ((m c).1, (m c).2.extend more) ∧ c.rest.length ≤ (m c).2.rest.length + n

theorem Local.pure {α : Type} (n : ℕ) (a : α) : Local n (Pure.pure a) := fun _ _ _ => ⟨rfl, Nat.le_add_right _ _⟩

theorem Local.bind {α β : Type} {n k : ℕ} {m : StateM Cursor α} {f : α → StateM Cursor β} (hm : Local k m) (hk : k ≤ n)
    (hf : ∀ a, Local (n - k) (f a)) : Local n (m >>= f) := by
  intro c more hn
  obtain ⟨hext, hrest⟩ := hm c more (by omega)
  obtain ⟨hext', hrest'⟩ := hf (m c).1 (m c).2 more (by omega)
  refine ⟨?_, Nat.le_trans hrest (by omega : _ ≤ (f (m c).1 (m c).2).2.rest.length + n)⟩
  rw [bind_apply, bind_apply, hext]
  exact hext'

theorem readField_local (w : ℕ) : Local w (readField w) := by
  intro c more h
  have hmore : w ≤ c.rest.length + more.length := by omega
  simp only [readField, Cursor.extend, List.length_append, h, hmore, if_true, List.take_append_of_le_length h,
    List.drop_append_of_le_length h, List.length_drop, true_and]
  omega

theorem readHeader_local : Local 25 readHeader := by
  unfold readHeader
  iterate 15 refine (readField_local _).bind (by decide) fun _ => ?_
  exact Local.pure _ _

variable (readCsi) in
theorem readCsiField_local (h : LogHeader) : Local (h.csiLen.getD 0) (readCsiField readCsi h) := by
  intro c more hlen
  simp only [readCsiField_eq, Cursor.extend, List.take_append_of_le_length hlen, List.drop_append_of_le_length hlen,
    List.length_drop, true_and]
  omega

theorem readPayload_local (h : LogHeader) : Local (h.payloadLen.getD 0) (readPayload h) := by
  intro c more hlen
  simp only [readPayload_eq, Cursor.extend, List.take_append_of_le_length hlen, List.drop_append_of_le_length hlen,
    List.length_drop, true_and]
  omega

/-- A round that stores a record stores the same one when the file goes on. -/
theorem readBlock_extend {len : ℕ} {c c' : Cursor} {e : LogEntry γ} (more : List UInt8)
    (hpos : c.cur + c.rest.length = len) (h : readBlock readCsi len c = .ok (e, c')) :
    readBlock readCsi (len + more.length) (c.extend more) = .ok (e, c'.extend more) ∧
      c'.cur + c'.rest.length = len := by
  obtain ⟨hc', hnear⟩ := readBlock_cursor readCsi h
  have hfit : 27 + e.csiLen.getD 0 + e.payloadLen.getD 0 ≤ c.rest.length := by
    rw [hc'] at hnear
    simp only at hnear
    omega
  refine ⟨?_, by rw [hc']; simp only [List.length_drop]; omega⟩
  unfold readBlock at h ⊢
  split at h
  case isFalse => cases h
  case isTrue hmore =>
    simp only at h
    split at h
    case isTrue => cases h
    case isFalse hshort =>
      split at h
      case isTrue => cases h
      case isFalse hend =>
        obtain ⟨rfl, rfl⟩ := Prod.mk.inj (Except.ok.inj h)
        -- Every read of the round ends inside the file that was there before.
        obtain ⟨h₁, l₁⟩ := readField_local 2 c more (by omega)
        obtain ⟨h₂, l₂⟩ := readHeader_local (readField 2 c).2 more (by omega)
        simp only at hfit
        obtain ⟨h₃, l₃⟩ := readCsiField_local readCsi (readHeader (readField 2 c).2).1
          (readHeader (readField 2 c).2).2 more (by omega)
        obtain ⟨h₄, -⟩ := readPayload_local (readHeader (readField 2 c).2).1
          (readCsiField readCsi (readHeader (readField 2 c).2).1 (readHeader (readField 2 c).2).2).2 more (by omega)
        simp only [h₁, h₂, h₃, h₄]
        have hmore : (c.extend more).cur + 4 < len + more.length := by
          simp only [Cursor.extend]
          omega
        rw [if_pos hmore, if_neg, if_neg]
        · simp only [Cursor.extend]
          omega
        · intro hmany
          obtain ⟨n, hn, hlong⟩ := (Option.any_eq_true _ _).mp hmany
          have hlong := of_decide_eq_true hlong
          simp only [Cursor.extend] at hlong
          exact hshort ((Option.any_eq_true _ _).mpr ⟨n, hn, decide_eq_true (by omega)⟩)

/-! ### The longer file -/

/-- Two readers with the same records, the second one in a file that `more` continues. -/
structure Follows (len : ℕ) (more : List UInt8) (s t : ReaderState γ) : Prop where
  cursor : t.cursor = s.cursor.extend more
  position : s.cursor.cur + s.cursor.rest.length = len
  count : t.count = s.count
  stored : t.stored = s.stored
  cells : s.count ≤ s.ret.length
  cells' : t.count ≤ t.ret.length

theorem Follows.step {len : ℕ} {more : List UInt8} {s s' t : ReaderState γ} (h : Follows len more s t)
    (hs : readStep readCsi len s = some s') :
    ∃ t', readStep readCsi (len + more.length) t = some t' ∧ Follows len more s' t' := by
  obtain ⟨e, c, hb, rfl⟩ := readStep_eq_some hs
  obtain ⟨hb', hpos⟩ := readBlock_extend more h.position hb
  rw [← h.cursor] at hb'
  obtain ⟨hstored, hcells⟩ := cellSet_of_le e h.cells
  obtain ⟨hstored', hcells'⟩ := cellSet_of_le e h.cells'
  refine ⟨_, readStep_of_ok hb', ⟨rfl, hpos, by simp only [h.count], ?_, hcells, hcells'⟩⟩
  have hsame := h.stored
  simp only [ReaderState.stored] at hsame ⊢
  rw [hstored', hstored, hsame]

/-- What `read_log_file` returns for a file that holds a record, it also returns, at the front, for every
    continuation of that file. -/
theorem readLogFile_append_prefix (readCsi : ℕ → List UInt8 → Option ℕ → Option ℕ → Option ℕ → γ)
    (file more : List UInt8) (hcount : 1 ≤ (readLoop readCsi file.length (readStart γ file)).count) :
    ∃ xs ys, readLogFile readCsi file = .ok xs ∧ readLogFile readCsi (file ++ more) = .ok ys ∧ xs <+: ys := by
  have hstart : Follows file.length more (readStart γ file) (readStart γ (file ++ more)) :=
    ⟨rfl, Nat.zero_add _, rfl, rfl, Nat.zero_le _, Nat.zero_le _⟩
  have hsim : ∃ t, Follows file.length more (readLoop readCsi file.length (readStart γ file)) t ∧
      readLoop readCsi (file.length + more.length) (readStart γ (file ++ more)) =
        readLoop readCsi (file.length + more.length) t :=
    iterate_sim (fun _ _ _ h hs => h.step hs) _ _ hstart
  obtain ⟨t, hfol, hloop⟩ := hsim
  have hfinal : readLoop readCsi (file ++ more).length (readStart γ (file ++ more)) =
      readLoop readCsi (file.length + more.length) t := by
    rw [List.length_append]
    exact hloop
  obtain ⟨hpre, hle, -⟩ := readLoop_stored readCsi (file.length + more.length) t hfol.cells'
  rw [← hfinal] at hpre hle
  rw [hfol.count] at hle
  rw [hfol.stored] at hpre
  refine ⟨_, _, readLogFile_of_stored hcount, readLogFile_of_stored (Nat.le_trans hcount hle), ?_⟩
  refine (hpre.take _).trans (List.take_prefix_take_left ?_)
  exact max_le_max (Nat.le_refl _) (Nat.sub_le_sub_right hle 1)

theorem readLoop_count_pos {file : List UInt8} (h : (readStep readCsi file.length (readStart γ file)).isSome) :
    1 ≤ (readLoop readCsi file.length (readStart γ file)).count := by
  obtain ⟨t, ht⟩ := Option.isSome_iff_exists.mp h
  obtain ⟨-, -, hcount, hcells⟩ := readStep_stored (Nat.zero_le _) ht
  obtain ⟨-, hle, -⟩ := readLoop_stored readCsi file.length t hcells
  rw [readLoop, iterate_of_some ht]
  exact Nat.le_trans (by rw [hcount]; exact Nat.le_add_left 1 _) hle

end Reader

theorem readLogFile_append_prefix_zeros :
    ∃ xs ys, readLogFile (fun _ => readCsi fun _ => 0) (List.replicate 447 0) = .ok xs ∧
      readLogFile (fun _ => readCsi fun _ => 0) (List.replicate 447 0 ++ [1, 2, 3]) = .ok ys ∧ xs <+: ys :=
  readLogFile_append_prefix _ _ _ (readLoop_count_pos (by decide +kernel))

end AtherosCsi
