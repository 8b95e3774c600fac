import AtherosCsi.Theorems.LogGrowth
import AtherosCsi.Theorems.Range

/-! Where the writer and the reader of a log take a frame to end. The receiver writes as many bytes as the
    last two bytes of a packet say. `read_log_file` moves on by the lengths in the header; the length in
    front of a frame serves it only to see whether the file is long enough. Nothing compares the two. -/

namespace AtherosCsi
open LittleEndian

/-! ### The writer -/

/-- A packet that the receiver decodes inside its arrays. The lengths in its header and the one behind it
    need not agree. -/
structure RawPacket where
  bytes : List UInt8
  cnt_ge : 27 ≤ bytes.length
  cnt_le : bytes.length ≤ 4096
  len_ge : 25 ≤ leVal ((bytes.drop (bytes.length - 2)).take 2)
  len_le : leVal ((bytes.drop (bytes.length - 2)).take 2) ≤ 4096
  nr_le : (bytes.getD 17 0).toNat ≤ 3
  nc_le : (bytes.getD 18 0).toNat ≤ 3
  numTones_le : (bytes.getD 16 0).toNat ≤ 114
  payload_le : leVal ((bytes.drop 23).take 2) ≤ 1500
  body_le : 25 + leVal ((bytes.drop 8).take 2) + leVal ((bytes.drop 23).take 2) ≤ 4096

namespace RawPacket
variable (p : RawPacket)

def len : ℕ := leVal ((p.bytes.drop (p.bytes.length - 2)).take 2)

def bufLen : UInt16 := UInt16.ofNat p.len

/-- What `read_log_file` passes where it finds the packet: two bytes, the header, and what that announces. -/
def advance : ℕ := 27 + leVal ((p.bytes.drop 8).take 2) + leVal ((p.bytes.drop 23).take 2)

def outcome : ReadOutcome :=
  .packet p.bytes (by
    have := p.cnt_ge
    exact ⟨by omega, p.cnt_le⟩)

/-- A frame for the packet: its length as the host stores it, and that many bytes, which start as the packet does. -/
def Logged (h : Host) (frame : List UInt8) : Prop :=
  ∃ body, frame = h.shortBytes p.bufLen ++ body ∧ body.length = p.len ∧
    body.take p.bytes.length = p.bytes.take p.len

variable {p} in
theorem Logged.length_eq {h : Host} {frame : List UInt8} (hf : p.Logged h frame) : frame.length = 2 + p.len := by
  obtain ⟨body, rfl, hlen, -⟩ := hf
  rw [List.length_append, h.length_shortBytes, hlen]

theorem toNat_bufLen : p.bufLen.toNat = p.len := by
  have hle : p.len ≤ 4096 := p.len_le
  rw [bufLen, UInt16.toNat_ofNat', Nat.mod_eq_of_lt (by omega)]

theorem short_len (buf : BufAddr) : BufAddr.short (buf.overlay p.bytes) (p.bytes.length - 2) = p.bufLen := by
  have hge := p.cnt_ge
  apply UInt16.toNat_inj.mp
  rw [buf.short_overlay_toNat p.cnt_le (by omega), toNat_bufLen, len]

theorem packetInRange (buf : BufAddr) : PacketInRange true (buf.overlay p.bytes) p.bytes.length := by
  have hge := p.cnt_ge
  have hbyte : ∀ i < 27, BufAddr.byte (buf.overlay p.bytes) i = p.bytes.getD i 0 := fun i hi =>
    buf.byte_overlay_getD p.cnt_le (by omega)
  have hshort : ∀ i < 25, (BufAddr.short (buf.overlay p.bytes) i).toNat = leVal ((p.bytes.drop i).take 2) := fun i hi =>
    buf.short_overlay_toNat p.cnt_le (by omega)
  refine ⟨by omega, ?_, ?_, fun _ => ?_⟩
  · rw [hshort 8 (by decide), hshort 23 (by decide)]
    exact ⟨p.payload_le, Or.inr p.body_le⟩
  · rw [hbyte 17 (by decide), hbyte 18 (by decide), hbyte 16 (by decide)]
    exact DimsFit.of_le ⟨p.nr_le, p.nc_le, p.numTones_le⟩
  · rw [buf.short_overlay_toNat p.cnt_le (by omega)]
    exact p.len_le

theorem recvStep_logged (h : Host) (s : RecvState) :
    ∃ t frame, recvStep h true s p.outcome = some t ∧ t.file = s.file ++ frame ∧ p.Logged h frame := by
  have hge := p.cnt_ge
  obtain ⟨t, ht⟩ := Option.isSome_iff_exists.mp
    ((recvStep_isSome_iff h true s p.outcome).mpr (p.packetInRange s.bufAddr))
  obtain ⟨body, hbody, hfile⟩ := recvStep_log (by omega) ht (p.short_len s.bufAddr)
  rw [p.toNat_bufLen] at hbody
  have hlen := CArray.length_first? hbody
  refine ⟨t, _, ht, hfile, body, rfl, hlen, ?_⟩
  -- Behind the packet the buffer still holds what came before, so only its own bytes are known.
  have hmin := CArray.first?_take hbody (Nat.min_le_left p.len p.bytes.length)
  rw [CArray.first?_overlay _ p.cnt_le (Nat.min_le_right _ _)] at hmin
  calc
    body.take p.bytes.length = body.take (min p.len p.bytes.length) := by
      rw [List.take_eq_take_min, hlen, Nat.min_comm]
    _ = p.bytes.take (min p.len p.bytes.length) := (Option.some.inj hmin).symm
    _ = p.bytes.take p.len := List.take_eq_take_min.symm

end RawPacket

/-- Round after round the receiver stays inside its arrays and logs one frame for each packet. -/
theorem recvLoop_logged (h : Host) (ps : List RawPacket) (s : RecvState) :
    ∃ t frames, recvLoop h true s (ps.map RawPacket.outcome) = some t ∧ t.file = s.file ++ frames.flatten ∧
      List.Forall₂ (fun p frame => p.Logged h frame) ps frames := by
  induction ps generalizing s with
  | nil => exact ⟨s, [], rfl, by simp, List.Forall₂.nil⟩
  | cons p ps ih =>
    obtain ⟨u, frame, hu, hfile, hframe⟩ := p.recvStep_logged h s
    obtain ⟨t, frames, ht, hfiles, hframes⟩ := ih u
    refine ⟨t, frame :: frames, ?_, ?_, List.Forall₂.cons hframe hframes⟩
    · rw [List.map_cons, recvLoop_cons, hu, Option.bind_some, ht]
    · rw [hfiles, hfile, List.flatten_cons, List.append_assoc]

/-! ### The reader -/

theorem readHeader_lengths {c : Cursor} (hc : 25 ≤ c.rest.length) :
    (readHeader c).1.csiLen = some (leVal ((c.rest.drop 8).take 2)) ∧
      (readHeader c).1.payloadLen = some (leVal ((c.rest.drop 23).take 2)) := by
  have h8 : 2 ≤ c.rest.length - 8 := by omega
  have h23 : 2 ≤ c.rest.length - 23 := by omega
  simp only [readHeader, bind_apply, pure_apply, readField, List.drop_drop, List.length_drop, Nat.reduceAdd, h8, h23,
    if_true, and_self]

/-- The tests that a round passes when it stores a record that starts at `cur`: the `l` bytes that the length in
    front of it announces are there, and the `n` bytes that the reader passes end well before the file does. -/
def Stores (len cur l n : ℕ) : Prop := cur + 2 + l ≤ len ∧ cur + n + 420 ≤ len

section Reader
variable {γ : Type} {readCsi : ℕ → List UInt8 → Option ℕ → Option ℕ → Option ℕ → γ}

variable (readCsi) in
/-- A round with room for a header moves on by what that header announces. -/
theorem readBlock_of_header {len n : ℕ} {c : Cursor} (hpos : c.cur + c.rest.length = len) (h27 : 27 ≤ c.rest.length)
    (hn : 27 + leVal ((c.rest.drop 10).take 2) + leVal ((c.rest.drop 25).take 2) = n) :
    Stores len c.cur (leVal (c.rest.take 2)) n ∧ (∃ e, readBlock readCsi len c = .ok (e, ⟨c.rest.drop n, c.cur + n⟩)) ∨
      ¬ Stores len c.cur (leVal (c.rest.take 2)) n ∧ ∃ exit, readBlock readCsi len c = .error exit := by
  have hmore : c.cur + 4 < len := by omega
  have hfield : readField 2 c = (some (leVal (c.rest.take 2)), ⟨c.rest.drop 2, c.cur + 2⟩) := by
    rw [readField, if_pos (by omega)]
  obtain ⟨hcsi, hpayload⟩ := readHeader_lengths (c := ⟨c.rest.drop 2, c.cur + 2⟩) (by simp; omega)
  simp only [List.drop_drop, Nat.reduceAdd] at hcsi hpayload
  have hcur : c.cur + 2 + 25 + leVal ((c.rest.drop 10).take 2) + leVal ((c.rest.drop 25).take 2) = c.cur + n := by omega
  have hrest : 2 + 25 + leVal ((c.rest.drop 10).take 2) + leVal ((c.rest.drop 25).take 2) = n := by omega
  rw [readBlock, if_pos hmore]
  simp only [hfield, readCsiField_eq, readPayload_eq, readHeader_cursor, hcsi, hpayload, Option.getD_some, List.drop_drop,
    Option.any_some, decide_eq_true_eq, hcur, hrest, Stores]
  by_cases hlong : c.cur + 2 + leVal (c.rest.take 2) > len
  · rw [if_pos hlong]
    exact Or.inr ⟨by omega, _, rfl⟩
  · rw [if_neg hlong]
    by_cases hend : c.cur + n + 420 > len
    · rw [if_pos hend]
      exact Or.inr ⟨by omega, _, rfl⟩
    · rw [if_neg hend]
      exact Or.inl ⟨by omega, _, rfl⟩

variable (readCsi) in
theorem readStep_of_header {len n : ℕ} {s : ReaderState γ} (hpos : s.cursor.cur + s.cursor.rest.length = len)
    (h27 : 27 ≤ s.cursor.rest.length)
    (hn : 27 + leVal ((s.cursor.rest.drop 10).take 2) + leVal ((s.cursor.rest.drop 25).take 2) = n) :
    Stores len s.cursor.cur (leVal (s.cursor.rest.take 2)) n ∧ (∃ t, readStep readCsi len s = some t ∧
        t.cursor = ⟨s.cursor.rest.drop n, s.cursor.cur + n⟩ ∧ t.count = s.count + 1) ∨
      ¬ Stores len s.cursor.cur (leVal (s.cursor.rest.take 2)) n ∧ readStep readCsi len s = none := by
  obtain ⟨hstores, e, hok⟩ | ⟨hnot, exit, herr⟩ := readBlock_of_header readCsi hpos h27 hn
  · exact Or.inl ⟨hstores, _, readStep_of_ok hok, rfl, rfl⟩
  · exact Or.inr ⟨hnot, by simp only [readStep, herr]⟩

variable (readCsi) in
/-- The states in which the loop of `read_log_file` comes to its condition, from `s` on. -/
def Reached (len : ℕ) (s u : ReaderState γ) : Prop :=
  Relation.ReflTransGen (fun s t => readStep readCsi len s = some t) s u

theorem Reached.count_le {len : ℕ} {s u : ReaderState γ} (h : Reached readCsi len s u) : s.count ≤ u.count := by
  induction h with
  | refl => exact Nat.le_refl _
  | tail _ hstep ih =>
    obtain ⟨e, c, -, rfl⟩ := readStep_eq_some hstep
    exact Nat.le_succ_of_le ih

theorem Reached.eq_of_none {len : ℕ} {s u : ReaderState γ} (hnone : readStep readCsi len s = none)
    (h : Reached readCsi len s u) : u = s := by
  obtain rfl | ⟨t, ht, -⟩ := Relation.ReflTransGen.cases_head h
  · rfl
  · rw [hnone] at ht
    cases ht

end Reader

/-! ### Both -/

/-- Where frame `k` starts, counted from 0, when each takes the length behind its packet and two bytes more. -/
def offset (ps : List RawPacket) (k : ℕ) : ℕ := ((ps.take k).map fun p => 2 + p.len).sum

@[simp] theorem offset_zero (ps : List RawPacket) : offset ps 0 = 0 := by simp [offset]

@[simp] theorem offset_succ (p : RawPacket) (ps : List RawPacket) (k : ℕ) :
    offset (p :: ps) (k + 1) = 2 + p.len + offset ps k := by simp [offset]

/-- From the offset `off` on, the lengths in the header of a packet agree with the one behind it, for every
    packet that the reader of a file of `len` bytes stores. At the first one that it does not store it stops. -/
def AgreeFrom (h : Host) (len : ℕ) : ℕ → List RawPacket → Prop
  | _, [] => True
  | off, p :: ps => Stores len off (leVal (h.shortBytes p.bufLen)) p.advance →
      p.advance = 2 + p.len ∧ AgreeFrom h len (off + (2 + p.len)) ps

theorem length_flatten_logged {h : Host} {ps : List RawPacket} {frames : List (List UInt8)}
    (hframes : List.Forall₂ (fun p frame => p.Logged h frame) ps frames) :
    frames.flatten.length = offset ps ps.length := by
  induction hframes with
  | nil => rfl
  | cons hframe _ ih => rw [List.flatten_cons, List.length_append, hframe.length_eq, ih, List.length_cons, offset_succ]

/-- The first bytes of a frame as the reader takes them. -/
theorem RawPacket.Logged.header {h : Host} {p : RawPacket} {frame : List UInt8} (hf : p.Logged h frame) (ys : List UInt8) :
    (frame ++ ys).take 2 = h.shortBytes p.bufLen ∧
      27 + leVal (((frame ++ ys).drop 10).take 2) + leVal (((frame ++ ys).drop 25).take 2) = p.advance := by
  obtain ⟨body, rfl, hlen, htake⟩ := hf
  have hge := p.cnt_ge
  have hge' : 25 ≤ p.len := p.len_ge
  have hhead : (body ++ ys).take 25 = p.bytes.take 25 := by
    have hcut := congrArg (List.take 25) htake
    rw [List.take_take, List.take_take, Nat.min_eq_left (by omega), Nat.min_eq_left hge'] at hcut
    rw [List.take_append_of_le_length (by omega), hcut]
  have hfield : ∀ (xs : List UInt8) (i : ℕ), i + 2 ≤ 25 → (xs.drop i).take 2 = ((xs.take 25).drop i).take 2 := by
    intro xs i hi
    rw [List.drop_take, List.take_take, Nat.min_eq_left (by omega)]
  have hbody : ∀ i, i + 2 ≤ 25 → ((h.shortBytes p.bufLen ++ body ++ ys).drop (2 + i)).take 2 = (p.bytes.drop i).take 2 := by
    intro i hi
    rw [← List.drop_drop, List.append_assoc, List.drop_left' (h.length_shortBytes _), hfield _ i hi, hhead,
      ← hfield _ i hi]
  refine ⟨?_, ?_⟩
  · rw [List.append_assoc, List.take_left' (h.length_shortBytes _)]
  · rw [advance, hbody 8 (by decide), hbody 23 (by decide)]

section Pace
variable {γ : Type} {readCsi : ℕ → List UInt8 → Option ℕ → Option ℕ → Option ℕ → γ} {len : ℕ} {s : ReaderState γ}

variable (readCsi) in
/-- From `s` on the reader starts each record that it gets to where the frame of the packet starts. -/
def InStep (len : ℕ) (s : ReaderState γ) (ps : List RawPacket) : Prop :=
  ∀ k u, Reached readCsi len s u → u.count = s.count + k →
    u.cursor = ⟨s.cursor.rest.drop (offset ps k), s.cursor.cur + offset ps k⟩

theorem inStep_of_none (hnone : readStep readCsi len s = none) (ps : List RawPacket) : InStep readCsi len s ps := by
  intro k u hu hk
  obtain rfl := hu.eq_of_none hnone
  obtain rfl : k = 0 := by omega
  simp

/-- A reader that has passed `n` bytes for a record is in step if these were its frame, and if it stays so. -/
theorem inStep_cons_iff {t : ReaderState γ} {n : ℕ} (ht : readStep readCsi len s = some t)
    (hcursor : t.cursor = ⟨s.cursor.rest.drop n, s.cursor.cur + n⟩) (hcount : t.count = s.count + 1) (p : RawPacket)
    (ps : List RawPacket) : InStep readCsi len s (p :: ps) ↔ n = 2 + p.len ∧ InStep readCsi len t ps := by
  have hthere : n = 2 + p.len → ∀ k, (⟨t.cursor.rest.drop (offset ps k), t.cursor.cur + offset ps k⟩ : Cursor) =
      ⟨s.cursor.rest.drop (offset (p :: ps) (k + 1)), s.cursor.cur + offset (p :: ps) (k + 1)⟩ := by
    rintro rfl k
    rw [hcursor, offset_succ]
    simp only [List.drop_drop, Nat.add_assoc]
  constructor
  · intro hall
    have hone := hall 1 t (Relation.ReflTransGen.single ht) hcount
    have hcur := congrArg Cursor.cur (hcursor.symm.trans hone)
    simp only [offset_succ, offset_zero] at hcur
    have hn : n = 2 + p.len := by omega
    refine ⟨hn, fun k u hu hk => ?_⟩
    rw [hthere hn]
    exact hall (k + 1) u (hu.head ht) (by omega)
  · rintro ⟨hn, hall⟩ k u hu hk
    obtain rfl | ⟨t', ht', hu'⟩ := Relation.ReflTransGen.cases_head hu
    · obtain rfl : k = 0 := by omega
      simp
    · obtain rfl := Option.some.inj (ht.symm.trans ht')
      have hle := Reached.count_le hu'
      obtain ⟨k, rfl⟩ : ∃ j, k = j + 1 := ⟨k - 1, by omega⟩
      rw [← hthere hn]
      exact hall k u hu' (by omega)

variable (readCsi) in
/-- On the frames of the packets the reader is in step exactly when the lengths agree. -/
theorem inStep_iff {h : Host} {ps : List RawPacket} {frames : List (List UInt8)}
    (hframes : List.Forall₂ (fun p frame => p.Logged h frame) ps frames) (s : ReaderState γ)
    (hrest : s.cursor.rest = frames.flatten) (hpos : s.cursor.cur + s.cursor.rest.length = len) :
    InStep readCsi len s ps ↔ AgreeFrom h len s.cursor.cur ps := by
  induction hframes generalizing s with
  | nil =>
    have hend : ¬ s.cursor.cur + 4 < len := by
      rw [hrest] at hpos
      simp at hpos
      omega
    have hnone : readStep readCsi len s = none := by simp only [readStep, readBlock, if_neg hend]
    exact iff_of_true (inStep_of_none hnone []) trivial
  | @cons p frame ps frames hframe hframes ih =>
    rw [List.flatten_cons] at hrest
    have hlen := hframe.length_eq
    have hge : 25 ≤ p.len := p.len_ge
    have hlong : 2 + p.len ≤ s.cursor.rest.length := by
      rw [hrest, List.length_append, hlen]
      exact Nat.le_add_right _ _
    obtain ⟨hfield, hadv⟩ := hframe.header frames.flatten
    rw [← hrest] at hfield hadv
    have hstep := readStep_of_header readCsi hpos (by omega) hadv
    rw [hfield] at hstep
    obtain ⟨hstores, t, ht, hcursor, hcount⟩ | ⟨hnot, hnone⟩ := hstep
    · rw [inStep_cons_iff ht hcursor hcount, AgreeFrom, forall_prop_of_true hstores]
      refine and_congr_right fun hagree => ?_
      rw [hagree] at hcursor
      have hrest' : t.cursor.rest = frames.flatten := by
        rw [hcursor, hrest]
        exact List.drop_left' hlen
      have hpos' : t.cursor.cur + t.cursor.rest.length = len := by
        rw [hcursor, List.length_drop]
        simp only
        omega
      rw [ih t hrest' hpos', hcursor]
    · exact iff_of_true (inStep_of_none hnone _) fun hstores => absurd hstores hnot

end Pace

/-- The receiver logs each packet as its frame, and the reader of that log starts every record that it gets to
    where its frame starts. -/
def FramesAgree {γ : Type} (readCsi : ℕ → List UInt8 → Option ℕ → Option ℕ → Option ℕ → γ) (h : Host) (s : RecvState)
    (ps : List RawPacket) : Prop :=
  ∃ t frames, recvLoop h true { s with file := [] } (ps.map RawPacket.outcome) = some t ∧ t.file = frames.flatten ∧
    List.Forall₂ (fun p frame => p.Logged h frame) ps frames ∧
    ∀ u, Reached readCsi t.file.length (readStart γ t.file) u →
      u.cursor = ⟨t.file.drop (offset ps u.count), offset ps u.count⟩

section Log
variable {γ : Type} (readCsi : ℕ → List UInt8 → Option ℕ → Option ℕ → Option ℕ → γ)

theorem reached_log_iff {h : Host} {ps : List RawPacket} {frames : List (List UInt8)}
    (hframes : List.Forall₂ (fun p frame => p.Logged h frame) ps frames) :
    (∀ u, Reached readCsi frames.flatten.length (readStart γ frames.flatten) u →
      u.cursor = ⟨frames.flatten.drop (offset ps u.count), offset ps u.count⟩) ↔
    AgreeFrom h (offset ps ps.length) 0 ps := by
  rw [← length_flatten_logged hframes]
  refine Iff.trans ?_ (inStep_iff readCsi hframes (readStart γ frames.flatten) rfl (Nat.zero_add _))
  simp only [InStep, readStart, Nat.zero_add]
  exact ⟨fun hall k u hu hk => hk ▸ hall u hu, fun hall u hu => hall u.count u hu rfl⟩

/-- Writer and reader agree exactly when the lengths in each packet that the reader stores agree. -/
theorem framesAgree_iff (h : Host) (s : RecvState) (ps : List RawPacket) :
    FramesAgree readCsi h s ps ↔ AgreeFrom h (offset ps ps.length) 0 ps := by
  constructor
  · rintro ⟨t, frames, -, hfile, hframes, hall⟩
    rw [hfile] at hall
    exact (reached_log_iff readCsi hframes).mp hall
  · intro hagree
    obtain ⟨t, frames, ht, hfile, hframes⟩ := recvLoop_logged h ps { s with file := [] }
    rw [List.nil_append] at hfile
    refine ⟨t, frames, ht, hfile, hframes, ?_⟩
    rw [hfile]
    exact (reached_log_iff readCsi hframes).mpr hagree

end Log

/-- A packet of 27 bytes that announces one byte of payload, with a trailing length that leaves no room for it. -/
def oneTooMany : RawPacket where
  bytes := List.replicate 23 0 ++ [1, 0] ++ [25, 0]
  cnt_ge := by decide
  cnt_le := by decide
  len_ge := by decide
  len_le := by decide
  nr_le := by decide
  nc_le := by decide
  numTones_le := by decide
  payload_le := by decide
  body_le := by decide

/-- A packet of 27 bytes of which 500 are logged. -/
def longLogged : RawPacket where
  bytes := List.replicate 25 0 ++ [244, 1]
  cnt_ge := by decide
  cnt_le := by decide
  len_ge := by decide
  len_le := by decide
  nr_le := by decide
  nc_le := by decide
  numTones_le := by decide
  payload_le := by decide
  body_le := by decide

/-- After the first of these two packets the reader goes on at 28, where the second frame starts at 27. -/
theorem not_framesAgree_oneTooMany :
    oneTooMany.advance = 28 ∧ offset [oneTooMany, longLogged] 1 = 27 ∧
    ¬ FramesAgree (fun _ => readCsi fun _ => 0) Host.x86
      ⟨BufAddr.zero, DataBuf.zero, CsiMatrix.zero, CsiStruct.zero, []⟩ [oneTooMany, longLogged] := by
  refine ⟨by decide, by decide, ?_⟩
  rintro ⟨t, frames, -, hfile, hframes, hall⟩
  rw [hfile] at hall
  have hagree := ((reached_log_iff _ hframes).mp hall) (by unfold Stores; decide)
  exact absurd hagree.1 (by decide)

end AtherosCsi
