import AtherosCsi.ReadLogFile
import AtherosCsi.RecvToFile
import AtherosCsi.Theorems.Decode

/-! The numbers of several bytes in a packet. `record_status` reads 16-bit words as little-endian on every
    host, because its test for the byte order never succeeds. The shifts in its expression for the time
    stamp move each byte away from the place that the mask keeps, so hardly any time stamp survives. -/

namespace AtherosCsi
open LittleEndian Reservoir

/-! ### Words in the byte order of the host -/

def EqualBytes (x : UInt16) : Prop := x.toUInt8 = (x >>> 8).toUInt8

instance (x : UInt16) : Decidable (EqualBytes x) := by unfold EqualBytes; infer_instance

theorem word16_high_low_iff (x : UInt16) : word16 x.toUInt8 (x >>> 8).toUInt8 = x ↔ EqualBytes x := by
  rw [EqualBytes, ← UInt16.toNat_inj, ← UInt8.toNat_inj, word16_toNat, toNat_high, toNat_low]
  omega

/-- The word that `record_status` finds where the host has stored `x`. -/
theorem short_shortBytes (h : Host) (buf : BufAddr) {xs : List UInt8} {i : ℕ} {x : UInt16} (hn : xs.length ≤ 4096)
    (hx : (xs.drop i).take 2 = h.shortBytes x) :
    BufAddr.short (buf.overlay xs) i = x ↔ h.byteOrder = .little ∨ EqualBytes x := by
  cases hb : h.byteOrder with
  | little => simp [buf.short_overlay hn (hx.trans (h.shortBytes_little hb x))]
  | big =>
    have hat : ∀ j < 2, xs[i + j]? = (h.shortBytes x)[j]? := fun j hj => by
      rw [← hx, List.getElem?_take_of_lt hj, List.getElem?_drop]
    have h0 := hat 0 (by decide)
    have h1 := hat 1 (by decide)
    simp only [Nat.add_zero, Host.shortBytes, hb, List.getElem?_cons_zero, List.getElem?_cons_succ] at h0 h1
    rw [BufAddr.short, BufAddr.byte_overlay buf hn h0, BufAddr.byte_overlay buf hn h1, word16_high_low_iff]
    simp

/-- The four numbers of two bytes in a packet. -/
structure Words where
  csiLen : UInt16
  channel : UInt16
  payloadLen : UInt16
  bufLen : UInt16
  deriving DecidableEq, Repr

/-- The packet holds the words at their places, as a kernel with the byte order of the host stores them. -/
structure Words.StoredIn (x : Words) (h : Host) (bytes : List UInt8) : Prop where
  cnt_ge : 27 ≤ bytes.length
  cnt_le : bytes.length ≤ 4096
  csiLen : (bytes.drop 8).take 2 = h.shortBytes x.csiLen
  channel : (bytes.drop 10).take 2 = h.shortBytes x.channel
  payloadLen : (bytes.drop 23).take 2 = h.shortBytes x.payloadLen
  bufLen : (bytes.drop (bytes.length - 2)).take 2 = h.shortBytes x.bufLen

/-- `record_status` recovers the words from the packet. -/
def Words.RecoveredFrom (x : Words) (h : Host) (bytes : List UInt8) (buf : BufAddr) (st : CsiStruct) : Prop :=
  ∃ st', recordStatus h (buf.overlay bytes) bytes.length st = some st' ∧
    (⟨st'.csiLen, st'.channel, st'.payloadLen, st'.bufLen⟩ : Words) = x

/-- The words come back on a little-endian host, and elsewhere only when swapping the bytes of each makes no
    difference. -/
theorem recoveredFrom_iff (h : Host) (x : Words) (bytes : List UInt8) (hx : x.StoredIn h bytes) (buf : BufAddr)
    (st : CsiStruct) :
    x.RecoveredFrom h bytes buf st ↔
      h.byteOrder = .little ∨
        EqualBytes x.csiLen ∧ EqualBytes x.channel ∧ EqualBytes x.payloadLen ∧ EqualBytes x.bufLen := by
  have hge := hx.cnt_ge
  have hle := hx.cnt_le
  have hread := recordStatus_eq h (buf.overlay bytes) bytes.length (by omega) hle st
  have hwords : x.RecoveredFrom h bytes buf st ↔
      BufAddr.short (buf.overlay bytes) 8 = x.csiLen ∧ BufAddr.short (buf.overlay bytes) 10 = x.channel ∧
        BufAddr.short (buf.overlay bytes) 23 = x.payloadLen ∧
        BufAddr.short (buf.overlay bytes) (bytes.length - 2) = x.bufLen := by
    rw [Words.RecoveredFrom, hread]
    simp only [Option.some.injEq, exists_eq_left', statusAt]
    rw [← Words.mk.injEq]
  rw [hwords, short_shortBytes h buf hle hx.csiLen, short_shortBytes h buf hle hx.channel,
    short_shortBytes h buf hle hx.payloadLen, short_shortBytes h buf hle hx.bufLen, ← or_and_left, ← or_and_left,
    ← or_and_left]

def Host.bigEndian : Host := ⟨.big, Host.x86.wideShl⟩

/-- A packet of 27 bytes that holds `csi_len` 1 for a big-endian host, and zeros. -/
def bigEndianPacket : List UInt8 := List.replicate 9 0 ++ [1] ++ List.replicate 17 0

theorem bigEndianPacket_stored : Words.StoredIn ⟨1, 0, 0, 0⟩ Host.bigEndian bigEndianPacket where
  cnt_ge := by decide
  cnt_le := by decide
  csiLen := by decide
  channel := by decide
  payloadLen := by decide
  bufLen := by decide

theorem recoveredFrom_iff_bigEndianPacket : Words.StoredIn ⟨1, 0, 0, 0⟩ Host.bigEndian bigEndianPacket ∧
    (Words.RecoveredFrom ⟨1, 0, 0, 0⟩ Host.bigEndian bigEndianPacket BufAddr.zero CsiStruct.zero ↔
      Host.bigEndian.byteOrder = .little ∨ EqualBytes 1 ∧ EqualBytes 0 ∧ EqualBytes 0 ∧ EqualBytes 0) :=
  ⟨bigEndianPacket_stored, recoveredFrom_iff _ _ _ bigEndianPacket_stored _ _⟩

/-- A big-endian host reads the `csi_len` 1 of its own kernel as 256. -/
theorem not_recoveredFrom_bigEndianPacket : Words.StoredIn ⟨1, 0, 0, 0⟩ Host.bigEndian bigEndianPacket ∧
    ¬ Words.RecoveredFrom ⟨1, 0, 0, 0⟩ Host.bigEndian bigEndianPacket BufAddr.zero CsiStruct.zero := by
  refine ⟨bigEndianPacket_stored, ?_⟩
  rintro ⟨st', hst, hwords⟩
  have hlen : bigEndianPacket.length = 27 := by decide
  rw [hlen, recordStatus_eq _ _ 27 (by decide) (by decide)] at hst
  cases hst
  have hcsi := congrArg Words.csiLen hwords
  exact absurd hcsi (by decide)

/-! ### The time stamp -/

/-- The 64-bit value of an `int`. -/
def signExtend (x : UInt32) : UInt64 := x.toInt32.toInt64.toUInt64

theorem toNat_signExtend (x : UInt32) :
    (signExtend x).toNat = x.toNat + if 2 ^ 31 ≤ x.toNat then 2 ^ 64 - 2 ^ 32 else 0 := by
  have hbits : (signExtend x).toBitVec = x.toBitVec.signExtend 64 := by simp [signExtend]
  rw [← UInt64.toNat_toBitVec, hbits, BitVec.toNat_signExtend, BitVec.msb_eq_decide]
  simp

/-- The sign does not reach the lower four bytes. -/
theorem chunk_signExtend (x : UInt32) {i : ℕ} (hi : i < 4) :
    chunk 8 (signExtend x).toNat i = chunk 8 x.toNat i := by
  have hsign : (if 2 ^ 31 ≤ x.toNat then 2 ^ 64 - 2 ^ 32 else 0) =
      2 ^ 32 * (if 2 ^ 31 ≤ x.toNat then 2 ^ 32 - 1 else 0) := by split <;> rfl
  rw [toNat_signExtend, hsign]
  exact chunk_add_of_le (by omega) _ _

structure HasBytes (x : UInt64) (vs : List ℕ) : Prop where
  toNat : x.toNat = packed 8 vs
  lt : ∀ v ∈ vs, v < 2 ^ 8

theorem tstampTerm_toNat (h : Host) (b : UInt8) (n : ℕ) {mask : UInt64} {i : ℕ}
    (hmask : mask.toNat = (2 ^ 8 - 1) <<< (8 * i)) :
    (tstampTerm h b n mask).toNat = chunk 8 (signExtend (h.shl b n)).toNat i * 2 ^ (8 * i) := by
  rw [← and_mask, ← hmask, ← UInt64.toNat_and]
  rfl

/-- The next term adds the byte that its mask leaves. -/
theorem HasBytes.or {x : UInt64} {vs : List ℕ} (hx : HasBytes x vs) (h : Host) (b : UInt8) (n : ℕ) (mask : UInt64)
    (hmask : mask.toNat = (2 ^ 8 - 1) <<< (8 * vs.length)) :
    HasBytes (x ||| tstampTerm h b n mask) (vs ++ [chunk 8 (signExtend (h.shl b n)).toNat vs.length]) where
  toNat := by rw [UInt64.toNat_or, hx.toNat, tstampTerm_toNat h b n hmask, packed_or (by decide) hx.lt]
  lt v hv := by
    rcases List.mem_append.mp hv with hv | hv
    · exact hx.lt v hv
    · rw [List.mem_singleton.mp hv]
      exact chunk_lt _ _ _

theorem HasBytes.eq_leVal_iff {x : UInt64} {vs : List ℕ} (hx : HasBytes x vs) {bs : List UInt8}
    (hlen : bs.length = vs.length) : x.toNat = leVal bs ↔ bs.map UInt8.toNat = vs := by
  rw [hx.toNat]
  constructor
  · intro hval
    exact packed_inj (by decide) (by simpa using hlen) (toNat_digits_lt bs) hx.lt hval.symm
  · intro hval
    rw [← hval]
    rfl

theorem tstampOf_hasBytes (h : Host) (a₀ a₁ a₂ a₃ a₄ a₅ a₆ a₇ : UInt8) :
    HasBytes (tstampOf h a₀ a₁ a₂ a₃ a₄ a₅ a₆ a₇)
      [chunk 8 (signExtend (h.shl a₀ 56)).toNat 0, chunk 8 (signExtend (h.shl a₁ 48)).toNat 1,
        chunk 8 (signExtend (h.shl a₂ 40)).toNat 2, chunk 8 (signExtend (h.shl a₃ 32)).toNat 3,
        chunk 8 (signExtend (h.shl a₄ 24)).toNat 4, chunk 8 (signExtend (h.shl a₅ 16)).toNat 5,
        chunk 8 (signExtend (h.shl a₆ 8)).toNat 6, chunk 8 (signExtend (h.shl a₇ 0)).toNat 7] := by
  have h₀ : HasBytes (tstampTerm h a₀ 56 0xff) [chunk 8 (signExtend (h.shl a₀ 56)).toNat 0] := by
    refine ⟨?_, fun v hv => ?_⟩
    · rw [tstampTerm_toNat h a₀ 56 (i := 0) rfl]
      simp [packed]
    · rw [List.mem_singleton.mp hv]
      exact chunk_lt _ _ _
  have h₁ := h₀.or h a₁ 48 0xff00 rfl
  have h₂ := h₁.or h a₂ 40 0xff0000 rfl
  have h₃ := h₂.or h a₃ 32 0xff000000 rfl
  have h₄ := h₃.or h a₄ 24 0xff00000000 rfl
  have h₅ := h₄.or h a₅ 16 0xff0000000000 rfl
  have h₆ := h₅.or h a₆ 8 0xff000000000000 rfl
  exact h₆.or h a₇ 0 0xff00000000000000 rfl

/-! A shift by less than 32 leaves nothing for a mask of the upper four bytes but the sign. -/

theorem toNat_shl (h : Host) (b : UInt8) {n : ℕ} (hn : n ≤ 24) : (h.shl b n).toNat = b.toNat * 2 ^ n := by
  have hb := b.toNat_lt
  have hpow : 2 ^ n ≤ 2 ^ 24 := Nat.pow_le_pow_right (by decide) hn
  have hmul : b.toNat * 2 ^ n ≤ 255 * 2 ^ 24 := Nat.mul_le_mul (by omega) hpow
  have hcount : n.toUInt32.toNat % 32 = n := by simp; omega
  rw [Host.shl, if_pos (by omega), UInt32.toNat_shiftLeft, hcount, Nat.shiftLeft_eq, UInt8.toNat_toUInt32]
  exact Nat.mod_eq_of_lt (by omega)

theorem chunk_shl_eq_zero (h : Host) (b : UInt8) {n i : ℕ} (hn : n ≤ 16) (hi : 4 ≤ i) :
    chunk 8 (signExtend (h.shl b n)).toNat i = 0 := by
  have hb := b.toNat_lt
  have hpow : 2 ^ n ≤ 2 ^ 16 := Nat.pow_le_pow_right (by decide) hn
  have hmul : b.toNat * 2 ^ n ≤ 255 * 2 ^ 16 := Nat.mul_le_mul (by omega) hpow
  have hwide : 2 ^ 32 ≤ 2 ^ (8 * i) := Nat.pow_le_pow_right (by decide) (by omega)
  rw [chunk, toNat_signExtend, toNat_shl h b (by omega), if_neg (by omega), Nat.add_zero, Nat.div_eq_of_lt (by omega),
    Nat.zero_mod]

theorem chunk_shl_sign (h : Host) (b : UInt8) :
    chunk 8 (signExtend (h.shl b 24)).toNat 4 = if 128 ≤ b.toNat then 255 else 0 := by
  have hb := b.toNat_lt
  rw [chunk, toNat_signExtend, toNat_shl h b (Nat.le_refl _)]
  by_cases hneg : 128 ≤ b.toNat
  · rw [if_pos (by omega), if_pos hneg]
    omega
  · rw [if_neg (by omega), if_neg hneg]
    omega

/-- What becomes of a time stamp depends on the compiler of the host where it shifts by 32 and more. The
    eight bytes survive if the upper three are zero, the fifth is the sign of the fourth, and the lower
    four are what those shifts happen to leave. -/
structure TstampSurvives (h : Host) (b : ℕ → UInt8) : Prop where
  byte0 : (b 0).toNat = chunk 8 (h.wideShl (b 7) 56).toNat 0
  byte1 : (b 1).toNat = chunk 8 (h.wideShl (b 6) 48).toNat 1
  byte2 : (b 2).toNat = chunk 8 (h.wideShl (b 5) 40).toNat 2
  byte3 : (b 3).toNat = chunk 8 (h.wideShl (b 4) 32).toNat 3
  byte4 : (b 4).toNat = if 128 ≤ (b 3).toNat then 255 else 0
  byte5 : (b 5).toNat = 0
  byte6 : (b 6).toNat = 0
  byte7 : (b 7).toNat = 0

theorem tstampOf_eq_iff (h : Host) (b : ℕ → UInt8) :
    (tstampOf h (b 7) (b 6) (b 5) (b 4) (b 3) (b 2) (b 1) (b 0)).toNat = leVal (firstBytes b 8) ↔ TstampSurvives h b := by
  have hbytes := tstampOf_hasBytes h (b 7) (b 6) (b 5) (b 4) (b 3) (b 2) (b 1) (b 0)
  have hlist : (firstBytes b 8).map UInt8.toNat = [(b 0).toNat, (b 1).toNat, (b 2).toNat, (b 3).toNat, (b 4).toNat,
      (b 5).toNat, (b 6).toNat, (b 7).toNat] := rfl
  have hwide : ∀ (x : UInt8) {n i : ℕ}, 32 ≤ n → i < 4 →
      chunk 8 (signExtend (h.shl x n)).toNat i = chunk 8 (h.wideShl x n).toNat i := by
    intro x n i hn hi
    rw [chunk_signExtend _ hi, Host.shl, if_neg (by omega)]
  rw [hwide _ (by decide) (by decide), hwide _ (by decide) (by decide), hwide _ (by decide) (by decide),
    hwide _ (by decide) (by decide), chunk_shl_sign, chunk_shl_eq_zero _ _ (by decide) (by decide),
    chunk_shl_eq_zero _ _ (by decide) (by decide), chunk_shl_eq_zero _ _ (by decide) (by decide)] at hbytes
  rw [hbytes.eq_leVal_iff rfl, hlist]
  simp only [List.cons.injEq, and_true]
  constructor
  · rintro ⟨h0, h1, h2, h3, h4, h5, h6, h7⟩
    exact ⟨h0, h1, h2, h3, h4, h5, h6, h7⟩
  · rintro ⟨h0, h1, h2, h3, h4, h5, h6, h7⟩
    exact ⟨h0, h1, h2, h3, h4, h5, h6, h7⟩

theorem TstampSurvives.lt {h : Host} {b : ℕ → UInt8} (hb : TstampSurvives h b) : leVal (firstBytes b 8) < 2 ^ 53 := by
  have hlow := leVal_lt (firstBytes b 5)
  have hhigh : leVal (firstBytes (fun i => b (5 + i)) 3) = 0 := by
    simp [firstBytes, List.range_succ, hb.byte5, hb.byte6, hb.byte7]
  rw [length_firstBytes] at hlow
  rw [firstBytes_add b 5 3, leVal_append, hhigh, Nat.mul_zero, Nat.add_zero]
  exact hlow.trans (by norm_num)

/-- Hosts of the x86 family shift by the count modulo 32. There only the time stamp zero survives. -/
theorem tstampSurvives_x86_iff (b : ℕ → UInt8) : TstampSurvives Host.x86 b ↔ ∀ i < 8, b i = 0 := by
  have hshift : ∀ x : Fin 256, chunk 8 (Host.x86.wideShl (UInt8.ofNat x) 56).toNat 0 = 0 ∧
      chunk 8 (Host.x86.wideShl (UInt8.ofNat x) 48).toNat 1 = 0 ∧
      chunk 8 (Host.x86.wideShl (UInt8.ofNat x) 40).toNat 2 = 0 ∧
      chunk 8 (Host.x86.wideShl (UInt8.ofNat x) 32).toNat 3 = 0 := by decide +kernel
  have hshift' : ∀ x : UInt8, chunk 8 (Host.x86.wideShl x 56).toNat 0 = 0 ∧ chunk 8 (Host.x86.wideShl x 48).toNat 1 = 0 ∧
      chunk 8 (Host.x86.wideShl x 40).toNat 2 = 0 ∧ chunk 8 (Host.x86.wideShl x 32).toNat 3 = 0 := by
    intro x
    have := hshift ⟨x.toNat, x.toNat_lt⟩
    rwa [UInt8.ofNat_toNat] at this
  have hzero : ∀ {x : UInt8}, x.toNat = 0 → x = 0 := fun hx => UInt8.toNat_inj.mp hx
  constructor
  · intro hb i hi
    have h3 := hb.byte3.trans (hshift' (b 4)).2.2.2
    have h4 := hb.byte4
    rw [if_neg (by omega)] at h4
    interval_cases i
    · exact hzero (hb.byte0.trans (hshift' (b 7)).1)
    · exact hzero (hb.byte1.trans (hshift' (b 6)).2.1)
    · exact hzero (hb.byte2.trans (hshift' (b 5)).2.2.1)
    · exact hzero h3
    · exact hzero h4
    · exact hzero hb.byte5
    · exact hzero hb.byte6
    · exact hzero hb.byte7
  · intro hb
    have hnat : ∀ i < 8, (b i).toNat = 0 := fun i hi => by rw [hb i hi]; rfl
    refine ⟨?_, ?_, ?_, ?_, ?_, hnat 5 (by decide), hnat 6 (by decide), hnat 7 (by decide)⟩
    · rw [hnat 0 (by decide), (hshift' _).1]
    · rw [hnat 1 (by decide), (hshift' _).2.1]
    · rw [hnat 2 (by decide), (hshift' _).2.2.1]
    · rw [hnat 3 (by decide), (hshift' _).2.2.2]
    · rw [hnat 4 (by decide), hnat 3 (by decide)]
      rfl

/-- The time stamp that `record_status` computes is the number in the first eight bytes of the packet, and
    the one that `read_log_file` finds where the packet was logged. -/
def TstampKept (h : Host) (bytes : List UInt8) (buf : BufAddr) (st : CsiStruct) : Prop :=
  ∃ st', recordStatus h (buf.overlay bytes) bytes.length st = some st' ∧ st'.tstamp.toNat = leVal (bytes.take 8) ∧
    ∀ frame, logPacket h true (buf.overlay bytes) st'.bufLen = some frame → 8 ≤ st'.bufLen.toNat → ∀ rest cur,
      (readHeader (readField 2 ⟨frame ++ rest, cur⟩).2).1.timestamp = some st'.tstamp.toNat

theorem readHeader_timestamp (c : Cursor) : (readHeader c).1.timestamp = (readField 8 c).1.map toDouble := rfl

theorem timestamp_of_logPacket {h : Host} {buf : BufAddr} {bytes frame : List UInt8} {bufLen : UInt16}
    (hge : 8 ≤ bytes.length) (hle : bytes.length ≤ 4096) (hlog : logPacket h true (buf.overlay bytes) bufLen = some frame)
    (hlen : 8 ≤ bufLen.toNat) (rest : List UInt8) (cur : ℕ) :
    (readHeader (readField 2 ⟨frame ++ rest, cur⟩).2).1.timestamp = some (toDouble (leVal (bytes.take 8))) := by
  rw [logPacket, if_pos rfl] at hlog
  obtain ⟨body, hbody, hframe⟩ := Option.bind_eq_some_iff.mp hlog
  have hdrop : (frame ++ rest).drop 2 = body ++ rest := by
    rw [← Option.some.inj hframe, List.append_assoc, List.drop_left' (h.length_shortBytes bufLen)]
  have htake : body.take 8 = bytes.take 8 :=
    Option.some.inj ((CArray.first?_take hbody hlen).symm.trans (CArray.first?_overlay buf hle hge))
  have hbody8 : 8 ≤ body.length := by rw [CArray.length_first? hbody]; exact hlen
  have hroom : 8 ≤ (body ++ rest).length := by rw [List.length_append]; omega
  rw [readHeader_timestamp, readField, readField]
  simp only [hdrop]
  rw [if_pos hroom, List.take_append_of_le_length hbody8, htake]
  rfl

theorem tstamp_recordStatus (h : Host) {bytes : List UInt8} (hge : 27 ≤ bytes.length) (hle : bytes.length ≤ 4096)
    (buf : BufAddr) (st : CsiStruct) :
    ∃ st', recordStatus h (buf.overlay bytes) bytes.length st = some st' ∧
      (st'.tstamp.toNat = leVal (bytes.take 8) ↔ TstampSurvives h fun i => bytes.getD i 0) := by
  refine ⟨_, recordStatus_eq h (buf.overlay bytes) bytes.length (by omega) hle st, ?_⟩
  have hbyte : ∀ i < 8, BufAddr.byte (buf.overlay bytes) i = bytes.getD i 0 := fun i hi =>
    buf.byte_overlay_getD hle (by omega)
  rw [take_eq_firstBytes (by omega), ← tstampOf_eq_iff]
  simp only [statusAt, hbyte _ (show 0 < 8 by decide), hbyte _ (show 1 < 8 by decide), hbyte _ (show 2 < 8 by decide),
    hbyte _ (show 3 < 8 by decide), hbyte _ (show 4 < 8 by decide), hbyte _ (show 5 < 8 by decide),
    hbyte _ (show 6 < 8 by decide), hbyte _ (show 7 < 8 by decide)]

/-- The time stamp is kept exactly when its bytes survive the shifts, on x86 only where it is 0. The computed time
    stamps of packets whose bytes survive are ordered as the device has ordered them. -/
theorem tstampKept_iff (h : Host) (bytes : List UInt8) (hge : 27 ≤ bytes.length) (hle : bytes.length ≤ 4096)
    (buf : BufAddr) (st : CsiStruct) :
    (TstampKept h bytes buf st ↔ TstampSurvives h fun i => bytes.getD i 0) ∧
    (h = Host.x86 → (TstampKept h bytes buf st ↔ ∀ i < 8, bytes.getD i 0 = 0)) ∧
    ∀ (bytes' : List UInt8) (buf' : BufAddr) (st₀ st₁ st₂ : CsiStruct), 27 ≤ bytes'.length → bytes'.length ≤ 4096 →
      TstampSurvives h (fun i => bytes.getD i 0) → TstampSurvives h (fun i => bytes'.getD i 0) →
      recordStatus h (buf.overlay bytes) bytes.length st = some st₁ →
      recordStatus h (buf'.overlay bytes') bytes'.length st₀ = some st₂ →
      (st₁.tstamp < st₂.tstamp ↔ leVal (bytes.take 8) < leVal (bytes'.take 8)) ∧
      (st₁.tstamp = st₂.tstamp ↔ bytes.take 8 = bytes'.take 8) := by
  obtain ⟨st', hst, hval⟩ := tstamp_recordStatus h hge hle buf st
  have hkept : TstampKept h bytes buf st ↔ TstampSurvives h fun i => bytes.getD i 0 := by
    refine ⟨?_, fun hsurv => ⟨st', hst, hval.mpr hsurv, fun frame hlog hlen rest cur => ?_⟩⟩
    · rintro ⟨st'', hst'', hkept, -⟩
      obtain rfl := Option.some.inj (hst.symm.trans hst'')
      exact hval.mp hkept
    · have hsmall := hsurv.lt
      rw [← take_eq_firstBytes (by omega)] at hsmall
      rw [timestamp_of_logPacket (by omega) hle hlog hlen, hval.mpr hsurv, toDouble, if_pos hsmall]
  refine ⟨hkept, ?_, ?_⟩
  · rintro rfl
    exact hkept.trans (tstampSurvives_x86_iff _)
  · intro bytes' buf' st₀ st₁ st₂ hge' hle' hsurv hsurv' h₁ h₂
    obtain ⟨st'', hst'', hval'⟩ := tstamp_recordStatus h hge' hle' buf' st₀
    obtain rfl := Option.some.inj (hst.symm.trans h₁)
    obtain rfl := Option.some.inj (hst''.symm.trans h₂)
    rw [UInt64.lt_iff_toNat_lt, ← UInt64.toNat_inj, hval.mpr hsurv, hval'.mpr hsurv']
    refine ⟨Iff.rfl, fun heq => ?_, fun heq => by rw [heq]⟩
    exact leVal_inj (by simp; omega) heq

/-- A packet of 27 bytes with an empty header apart from its time stamp. -/
def stampedPacket (low : UInt8) : List UInt8 := [low] ++ List.replicate 24 0 ++ [25, 0]

theorem tstampKept_iff_stampedPacket :
    27 ≤ (stampedPacket 0).length ∧ (stampedPacket 0).length ≤ 4096 ∧
    (TstampKept Host.x86 (stampedPacket 0) BufAddr.zero CsiStruct.zero ↔ ∀ i < 8, (stampedPacket 0).getD i 0 = 0) ∧
    TstampKept Host.x86 (stampedPacket 0) BufAddr.zero CsiStruct.zero := by
  have hiff := (tstampKept_iff Host.x86 (stampedPacket 0) (by decide) (by decide) BufAddr.zero CsiStruct.zero).2.1 rfl
  exact ⟨by decide, by decide, hiff, hiff.mpr (by decide)⟩

/-- The time stamp 1 is lost on x86: what `record_status` computes is 0. -/
theorem not_tstampKept_stampedPacket :
    (∃ st', recordStatus Host.x86 (BufAddr.zero.overlay (stampedPacket 1)) 27 CsiStruct.zero = some st' ∧ st'.tstamp = 0) ∧
    leVal ((stampedPacket 1).take 8) = 1 ∧ ¬ TstampKept Host.x86 (stampedPacket 1) BufAddr.zero CsiStruct.zero := by
  have hst := recordStatus_eq Host.x86 (BufAddr.zero.overlay (stampedPacket 1)) 27 (by decide) (by decide) CsiStruct.zero
  have hzero : (statusAt Host.x86 (BufAddr.zero.overlay (stampedPacket 1)) 27).tstamp = 0 := by decide +kernel
  refine ⟨⟨_, hst, hzero⟩, by decide, ?_⟩
  rintro ⟨st', hst', hkept, -⟩
  obtain rfl := Option.some.inj (hst.symm.trans hst')
  rw [hzero] at hkept
  exact absurd hkept (by decide)

end AtherosCsi
