import AtherosCsi.Record
import AtherosCsi.Theorems.Unpackers

/-! What the decoder computes from its buffer. `record_status` overwrites the whole structure it is given
    and needs only that the length of the packet lies in the buffer; `record_csi_payload` needs a payload
    and dimensions for which its arrays have room. -/

namespace AtherosCsi
open Loop LittleEndian Reservoir

/-! ### Bytes of the buffer -/

namespace BufAddr

def byte (buf : BufAddr) (i : ℕ) : UInt8 := (buf.get? i).getD 0

def short (buf : BufAddr) (i : ℕ) : UInt16 := word16 (buf.byte (i + 1)) (buf.byte i)

theorem get?_eq (buf : BufAddr) {i : ℤ} (h0 : 0 ≤ i) (h : i < 4096) : buf.get? i = some (buf.byte i.toNat) := by
  obtain ⟨n, rfl⟩ := Int.eq_ofNat_of_zero_le h0
  have hn : n < 4096 := by exact_mod_cast h
  rw [Int.toNat_natCast, byte, CArray.get?_of_lt buf hn]
  rfl

theorem word_eq (buf : BufAddr) (lo : ℤ) (h0 : 0 ≤ lo) (h : lo + 1 < 4096) :
    buf.word (lo + 1) lo = some (buf.short lo.toNat) := by
  have h1 : 0 ≤ lo + 1 := Int.le_add_one h0
  have hnat : (lo + 1).toNat = lo.toNat + 1 := Int.toNat_add_nat h0 1
  rw [word, get?_eq buf h0 (by omega), get?_eq buf h1 h, hnat]
  rfl

theorem word_range {buf : BufAddr} {hi lo : ℤ} {x : UInt16} (h : buf.word hi lo = some x) :
    hi < 4096 ∧ 0 ≤ lo := by
  obtain ⟨b, hhi, h⟩ := Option.bind_eq_some_iff.mp h
  obtain ⟨c, hlo, -⟩ := Option.bind_eq_some_iff.mp h
  exact ⟨(CArray.get?_eq_some hhi).2, (CArray.get?_eq_some hlo).1⟩

/-! A buffer after a read, by the bytes that were read. -/

theorem byte_overlay (buf : BufAddr) {xs : List UInt8} {i : ℕ} {b : UInt8} (hn : xs.length ≤ 4096)
    (h : xs[i]? = some b) : byte (buf.overlay xs) i = b := by
  rw [byte, CArray.get?_overlay buf hn (List.getElem?_eq_some_iff.mp h).1, h]
  rfl

theorem byte_overlay_getD (buf : BufAddr) {xs : List UInt8} {i : ℕ} (hn : xs.length ≤ 4096) (hi : i < xs.length) :
    byte (buf.overlay xs) i = xs.getD i 0 :=
  byte_overlay buf hn (getElem?_eq_some_getD hi)

theorem short_overlay_toNat (buf : BufAddr) {xs : List UInt8} {i : ℕ} (hn : xs.length ≤ 4096) (hi : i + 2 ≤ xs.length) :
    (short (buf.overlay xs) i).toNat = leVal ((xs.drop i).take 2) := by
  have htake : (xs.drop i).take 2 = [xs.getD i 0, xs.getD (i + 1) 0] := by
    rw [List.drop_eq_getElem_cons (by omega), List.drop_eq_getElem_cons (by omega), List.take_succ_cons,
      List.take_succ_cons, List.take_zero]
    simp [List.getD_eq_getElem?_getD, show i < xs.length by omega, show i + 1 < xs.length by omega]
  rw [short, word16_toNat, buf.byte_overlay_getD hn (by omega), buf.byte_overlay_getD hn (by omega), htake]
  simp

theorem short_overlay (buf : BufAddr) {xs : List UInt8} {i : ℕ} {x : UInt16} (hn : xs.length ≤ 4096)
    (h : (xs.drop i).take 2 = leBytes 2 x.toNat) : short (buf.overlay xs) i = x := by
  have hlen := congrArg List.length h
  simp only [List.length_take, List.length_drop, length_leBytes] at hlen
  apply UInt16.toNat_inj.mp
  rw [short_overlay_toNat buf hn (by omega), h, leVal_leBytes_of_lt x.toNat_lt]

theorem bytes_overlay (buf : BufAddr) {xs : List UInt8} {i n : ℕ} (hn : xs.length ≤ 4096) (hi : i + n ≤ xs.length) :
    (List.range n).map (fun j => byte (buf.overlay xs) (i + j)) = (xs.drop i).take n := by
  apply List.ext_getElem
  · simp
    omega
  · intro j h₁ h₂
    have hj : i + j < xs.length := by simp at h₁; omega
    simp only [List.getElem_map, List.getElem_range, List.getElem_take, List.getElem_drop]
    exact byte_overlay buf hn (List.getElem?_eq_getElem hj)

end BufAddr

/-! ### The status -/

/-- The test for the byte order looks at the wrong end of an `int`: no host passes it. -/
theorem isBigEndian_eq_false (h : Host) : isBigEndian h = false := by
  unfold isBigEndian Host.intBytes
  cases h.byteOrder <;> rfl

def statusAt (h : Host) (buf : BufAddr) (cnt : ℕ) : CsiStruct where
  tstamp := tstampOf h (buf.byte 7) (buf.byte 6) (buf.byte 5) (buf.byte 4) (buf.byte 3) (buf.byte 2) (buf.byte 1)
    (buf.byte 0)
  channel := buf.short 10
  chanBW := buf.byte 15
  rate := buf.byte 14
  nr := buf.byte 17
  nc := buf.byte 18
  numTones := buf.byte 16
  noise := buf.byte 13
  phyerr := buf.byte 12
  rssi := buf.byte 19
  rssi0 := buf.byte 20
  rssi1 := buf.byte 21
  rssi2 := buf.byte 22
  payloadLen := buf.short 23
  csiLen := buf.short 8
  bufLen := buf.short (cnt - 2)

theorem recordStatusBytes_eq (buf : BufAddr) (st : CsiStruct) :
    recordStatusBytes buf st = some { st with
      phyerr := buf.byte 12, noise := buf.byte 13, rate := buf.byte 14, chanBW := buf.byte 15
      numTones := buf.byte 16, nr := buf.byte 17, nc := buf.byte 18, rssi := buf.byte 19
      rssi0 := buf.byte 20, rssi1 := buf.byte 21, rssi2 := buf.byte 22 } := by
  simp (disch := decide) only [recordStatusBytes, BufAddr.get?_eq]
  rfl

theorem headerWords (buf : BufAddr) :
    buf.word 9 8 = some (buf.short 8) ∧ buf.word 11 10 = some (buf.short 10) ∧
      buf.word (csiStLen + 1) csiStLen = some (buf.short 23) :=
  ⟨buf.word_eq 8 (by decide) (by decide), buf.word_eq 10 (by decide) (by decide),
    buf.word_eq 23 (by decide) (by decide)⟩

theorem lastWord (buf : BufAddr) {cnt : ℕ} (h2 : 2 ≤ cnt) (hcnt : cnt ≤ 4096) :
    buf.word ((cnt : ℤ) - 1) ((cnt : ℤ) - 2) = some (buf.short (cnt - 2)) := by
  have := buf.word_eq ((cnt : ℤ) - 2) (by omega) (by omega)
  rwa [show (cnt : ℤ) - 2 + 1 = (cnt : ℤ) - 1 by omega, show ((cnt : ℤ) - 2).toNat = cnt - 2 by omega] at this

theorem recordStatus_eq (h : Host) (buf : BufAddr) (cnt : ℕ) (h2 : 2 ≤ cnt) (hcnt : cnt ≤ 4096) (st : CsiStruct) :
    recordStatus h buf cnt st = some (statusAt h buf cnt) := by
  simp (disch := decide) only [recordStatus, isBigEndian_eq_false, BufAddr.get?_eq, lastWord buf h2 hcnt, headerWords,
    recordStatusBytes_eq]
  rfl

theorem recordStatusDb_eq (h : Host) (spec : Timespec) (buf : BufAddr) (cnt : ℕ) (h2 : 2 ≤ cnt) (hcnt : cnt ≤ 4096)
    (st : CsiStruct) :
    recordStatusDb h spec buf cnt st =
      some { statusAt h buf cnt with tstamp := spec.finalTs.toUInt64, csiLen := st.csiLen } := by
  simp (disch := decide) only [recordStatusDb, isBigEndian_eq_false, lastWord buf h2 hcnt, headerWords,
    recordStatusBytes_eq]
  rfl

/-- `record_status` leaves the buffer when there is no room for the trailing length in front of `cnt`. -/
theorem recordStatus_range {h : Host} {buf : BufAddr} {cnt : ℤ} {st st' : CsiStruct}
    (hst : recordStatus h buf cnt st = some st') : 2 ≤ cnt ∧ cnt ≤ 4096 := by
  cases hlen : buf.word (cnt - 1) (cnt - 2) with
  | none =>
    simp (disch := decide) only [recordStatus, isBigEndian_eq_false, BufAddr.get?_eq, hlen, headerWords] at hst
    cases hst
  | some x =>
    have := BufAddr.word_range hlen
    omega

/-! ### Payload and CSI -/

def payloadAt (buf : BufAddr) (csiLen payloadLen : ℕ) : List UInt8 :=
  (List.range payloadLen).map fun i => buf.byte (25 + csiLen + i)

def csiAt (buf : BufAddr) (n : ℕ) : ℕ := leVal (firstBytes (fun i => buf.byte (25 + i)) n)

/-- The payload lies in the buffer and `data_buf` has room for it. -/
def PayloadFits (csiLen payloadLen : ℕ) : Prop :=
  payloadLen ≤ 1500 ∧ (payloadLen = 0 ∨ 25 + csiLen + payloadLen ≤ 4096)

instance (csiLen payloadLen : ℕ) : Decidable (PayloadFits csiLen payloadLen) := by unfold PayloadFits; infer_instance

theorem copyPayload_eq (buf : BufAddr) {csiLen payloadLen : ℕ} (hfits : PayloadFits csiLen payloadLen)
    (dataBuf : DataBuf) :
    copyPayload buf csiLen payloadLen dataBuf = some (dataBuf.overlay (payloadAt buf csiLen payloadLen)) := by
  obtain ⟨hroom, hin⟩ := hfits
  have hlen : (payloadAt buf csiLen payloadLen).length = payloadLen := by simp [payloadAt]
  have hloop : ∃ t, copyPayload buf csiLen payloadLen dataBuf = some t ∧
      t = dataBuf.overlay ((payloadAt buf csiLen payloadLen).take (payloadLen + 1 - 1)) := by
    refine forUp_rule (fun i data => data = dataBuf.overlay ((payloadAt buf csiLen payloadLen).take (i - 1)))
      (by omega) (Nat.le_add_left 1 payloadLen) (by simp [CArray.overlay]) ?_
    rintro i _ hi hlt rfl
    have hval : (BitVec.ofNat 32 i).toNat = i := toNat_counter (by omega)
    -- The counter starts at 1, so round `i` copies byte `i - 1` of the payload.
    have hget : buf.get? (csiStLen + csiLen + i + 1 : ℤ) = some (buf.byte (25 + csiLen + (i - 1))) := by
      rw [buf.get?_eq (by omega) (by simp only [csiStLen]; omega)]
      congr 2
      simp only [csiStLen]
      omega
    have hpayload : i - 1 < payloadLen := by omega
    have hset := dataBuf.set?_overlay_take (payloadAt buf csiLen payloadLen) (hpayload.trans_le hroom)
      (x := buf.byte (25 + csiLen + (i - 1))) (by simp [payloadAt, hpayload])
    have hcast : (i : ℤ) - 1 = ((i - 1 : ℕ) : ℤ) := (Int.natCast_pred_of_pos hi).symm
    refine ⟨_, ?_, rfl⟩
    rw [hval, hget, hcast, Option.bind_eq_bind, Option.bind_some, hset, Nat.sub_add_cancel hi, Nat.add_sub_cancel]
  obtain ⟨t, ht, rfl⟩ := hloop
  rw [ht, Nat.add_sub_cancel, List.take_of_length_le (by omega)]

theorem payloadFits_of_copyPayload {buf : BufAddr} {csiLen payloadLen : ℕ} (hlt : payloadLen < 65536)
    {dataBuf dataBuf' : DataBuf} (h : copyPayload buf csiLen payloadLen dataBuf = some dataBuf') :
    PayloadFits csiLen payloadLen := by
  rcases Nat.eq_zero_or_pos payloadLen with rfl | hpos
  · exact ⟨by omega, Or.inl rfl⟩
  · -- The last round used the largest indices.
    have hfits : payloadLen + 1 < 2 ^ 32 := by omega
    obtain ⟨_, _, h⟩ := forUp_ran hfits h hpos (Nat.lt_succ_self _)
    obtain ⟨x, hget, hset⟩ := Option.bind_eq_some_iff.mp h
    rw [toNat_counter (by omega)] at hget hset
    have := CArray.get?_eq_some hget
    have := CArray.set?_eq_some hset
    simp only [csiStLen] at *
    exact ⟨by omega, Or.inr (by omega)⟩

/-- The bytes that a matrix of any allowed size takes lie inside the buffer. -/
theorem get?_csi (buf : BufAddr) {nr nc numTones : ℕ} (hdims : DimsFit nr nc numTones) :
    ∀ j < bytesRead (numTones * nc * nr), buf.get? (csiStLen + 2 + j : ℤ) = some (buf.byte (25 + j)) := by
  have hread : bytesRead (numTones * nc * nr) ≤ 2566 := by
    have := hdims.entries_le
    unfold bytesRead
    omega
  intro j hj
  rw [buf.get?_eq (by omega) (by simp only [csiStLen]; omega)]
  rfl

theorem recordCsiPayload_eq (buf : BufAddr) (st : CsiStruct) (hfits : PayloadFits st.csiLen.toNat st.payloadLen.toNat)
    (hdims : DimsFit st.nr.toNat st.nc.toNat st.numTones.toNat) (dataBuf : DataBuf) (csiMatrix : CsiMatrix) :
    recordCsiPayload buf st dataBuf csiMatrix =
      some (dataBuf.overlay (payloadAt buf st.csiLen.toNat st.payloadLen.toNat),
        filled (csiAt buf (bytesRead (st.numTones.toNat * st.nc.toNat * st.nr.toNat))) st.nr.toNat st.nc.toNat
          st.numTones.toNat csiMatrix) := by
  simp only [recordCsiPayload, copyPayload_eq buf hfits dataBuf,
    fillCsiMatrix_eq st.nr.toNat_lt st.nc.toNat_lt st.numTones.toNat_lt hdims (get?_csi buf hdims) csiMatrix]
  rfl

theorem recordCsiPayload_range {buf : BufAddr} {st : CsiStruct} {dataBuf : DataBuf} {csiMatrix : CsiMatrix}
    {res : DataBuf × CsiMatrix} (h : recordCsiPayload buf st dataBuf csiMatrix = some res) :
    PayloadFits st.csiLen.toNat st.payloadLen.toNat ∧ DimsFit st.nr.toNat st.nc.toNat st.numTones.toNat := by
  obtain ⟨_, hcopy, h⟩ := Option.bind_eq_some_iff.mp h
  obtain ⟨_, hfill, -⟩ := Option.bind_eq_some_iff.mp h
  exact ⟨payloadFits_of_copyPayload st.payloadLen.toNat_lt hcopy,
    dimsFit_of_fillCsiMatrix st.nr.toNat_lt st.nc.toNat_lt st.numTones.toNat_lt hfill⟩

/-! ### Decoding a record -/

namespace DeviceRecord
variable (r : DeviceRecord) (trailing : UInt16)

def csiStruct (tstamp : UInt64) (bufLen : UInt16) : CsiStruct where
  tstamp := tstamp
  channel := r.channel
  chanBW := r.chanBW
  rate := r.rate
  nr := r.nr
  nc := r.nc
  numTones := r.numTones
  noise := r.noise
  phyerr := r.phyerr
  rssi := r.rssi
  rssi0 := r.rssi0
  rssi1 := r.rssi1
  rssi2 := r.rssi2
  payloadLen := UInt16.ofNat r.payload.length
  csiLen := UInt16.ofNat r.csi.length
  bufLen := bufLen

theorem csiLen_toNat : (UInt16.ofNat r.csi.length).toNat = r.csi.length := by
  have := r.csi_le
  rw [UInt16.toNat_ofNat', Nat.mod_eq_of_lt (by omega)]

theorem payloadLen_toNat : (UInt16.ofNat r.payload.length).toNat = r.payload.length := by
  have := r.payload_le
  rw [UInt16.toNat_ofNat', Nat.mod_eq_of_lt (by omega)]

/-- `record_status` recovers everything but the time stamp. -/
theorem statusAt_packet (h : Host) (buf : BufAddr) :
    statusAt h (buf.overlay (r.packet trailing)) (r.len + 2) =
      r.csiStruct (statusAt h (buf.overlay (r.packet trailing)) (r.len + 2)).tstamp trailing := by
  have hn : (r.packet trailing).length ≤ 4096 := by
    have := r.len_le
    rw [length_packet]
    omega
  have hbyte : ∀ {i : ℕ} {b : UInt8}, (r.packet trailing)[i]? = some b →
      BufAddr.byte (buf.overlay (r.packet trailing)) i = b := buf.byte_overlay hn
  have hshort : ∀ {i : ℕ} {x : UInt16}, ((r.packet trailing).drop i).take 2 = leBytes 2 x.toNat →
      BufAddr.short (buf.overlay (r.packet trailing)) i = x := buf.short_overlay hn
  simp only [statusAt, csiStruct, CsiStruct.mk.injEq, true_and]
  refine ⟨hshort ?_, hbyte ?_, hbyte ?_, hbyte ?_, hbyte ?_, hbyte ?_, hbyte ?_, hbyte ?_, hbyte ?_, hbyte ?_, hbyte ?_,
    hbyte ?_, hshort ?_, hshort ?_, hshort ?_⟩
  case refine_13 =>
    rw [payloadLen_toNat]
    simp [packet, body, statusBytes, List.drop_append, List.drop_of_length_le]
  case refine_14 =>
    rw [csiLen_toNat]
    simp [packet, body, statusBytes]
  case refine_15 =>
    rw [Nat.add_sub_cancel, packet, ← length_body, List.drop_left]
    exact List.take_of_length_le (by simp)
  all_goals simp [packet, body, statusBytes, List.drop_append, List.getElem?_append, List.drop_of_length_le]

theorem drop_packet : (r.packet trailing).drop 25 = r.csi ++ r.payload ++ leBytes 2 trailing.toNat := by
  have hhead : (r.statusBytes ++ leBytes 2 r.payload.length).length = 25 := by simp
  rw [packet, body, List.append_assoc _ r.csi, List.append_assoc, List.drop_left' hhead]

theorem payloadAt_packet (buf : BufAddr) :
    payloadAt (buf.overlay (r.packet trailing)) r.csi.length r.payload.length = r.payload := by
  have := r.len_le
  rw [payloadAt, buf.bytes_overlay (by rw [length_packet]; omega) (by rw [length_packet, len]; omega),
    ← List.drop_drop, drop_packet]
  simp

theorem csiAt_packet (buf : BufAddr) {n : ℕ} (hn : r.csi.length ≤ n) :
    ∃ ys, csiAt (buf.overlay (r.packet trailing)) n = leVal (r.csi ++ ys) := by
  have := r.len_le
  have hcsi : firstBytes (fun i => BufAddr.byte (buf.overlay (r.packet trailing)) (25 + i)) r.csi.length = r.csi := by
    rw [firstBytes, buf.bytes_overlay (by rw [length_packet]; omega) (by rw [length_packet, len]; omega), drop_packet]
    simp
  obtain ⟨m, rfl⟩ := Nat.exists_eq_add_of_le hn
  rw [csiAt, firstBytes_add, hcsi]
  exact ⟨_, rfl⟩

end DeviceRecord

/-! ### Packed entries -/

theorem twosComplement_tenBits {x : ℤ} (h : -512 ≤ x ∧ x ≤ 511) : twosComplement 10 (tenBits x) = x := by
  unfold twosComplement tenBits
  split <;> omega

theorem toInt_part {x : ℤ} (h : -512 ≤ x ∧ x ≤ 511) {v p : ℕ} (hp : chunk 10 v p = tenBits x) : (part v p).toInt = x := by
  rw [part_toInt, hp, twosComplement_tenBits h]

namespace Content
variable (x : Content)

theorem length_parts : x.parts.length = 2 * (x.numTones.toNat * x.nc.toNat * x.nr.toNat) := by
  have h : x.parts.length = x.numTones.toNat * (x.nc.toNat * (x.nr.toNat * 2)) :=
    length_flatMap_range x.length_toneParts _
  rw [h]
  ring

theorem parts_lt : ∀ v ∈ x.parts, v < 2 ^ 10 := by
  have hbits : ∀ z : ℤ, tenBits z < 2 ^ 10 := fun z => by unfold tenBits; omega
  intro v hv
  simp only [parts, toneParts, rowParts, entryParts, List.mem_flatMap, List.mem_cons, List.not_mem_nil, or_false] at hv
  obtain ⟨k, -, c, -, r, -, rfl | rfl⟩ := hv <;> exact hbits _

theorem getElem?_parts {r c k j : ℕ} (hr : r < x.nr.toNat) (hc : c < x.nc.toNat) (hk : k < x.numTones.toNat) (hj : j < 2) :
    x.parts[2 * ((k * x.nc.toNat + c) * x.nr.toNat + r) + j]? =
      (x.entryParts k c r)[j]? := by
  have hrow : r * 2 + j < x.nr.toNat * 2 := by omega
  have hcol : c * (x.nr.toNat * 2) + (r * 2 + j) < x.nc.toNat * (x.nr.toNat * 2) := by
    calc c * (x.nr.toNat * 2) + (r * 2 + j) < c * (x.nr.toNat * 2) + x.nr.toNat * 2 := by omega
      _ = (c + 1) * (x.nr.toNat * 2) := by ring
      _ ≤ x.nc.toNat * (x.nr.toNat * 2) := Nat.mul_le_mul_right _ hc
  have hindex : 2 * ((k * x.nc.toNat + c) * x.nr.toNat + r) + j =
      k * (x.nc.toNat * (x.nr.toNat * 2)) + (c * (x.nr.toNat * 2) + (r * 2 + j)) := by ring
  rw [hindex, parts, getElem?_flatMap_range x.length_toneParts hk hcol, toneParts, getElem?_flatMap_range (x.length_rowParts k) hc hrow,
    rowParts, getElem?_flatMap_range (x.length_entryParts k c) hr hj]

theorem csiLen_eq : x.csiLen = (20 * (x.numTones.toNat * x.nc.toNat * x.nr.toNat) + 7) / 8 := by
  rw [csiLen]
  congr 2
  ring

theorem length_record_csi : x.record.csi.length = x.csiLen := length_leBytes _ _

/-- The CSI of the record packs the parts, whatever stands behind it. -/
theorem chunk_record (ys : List UInt8) {p v : ℕ} (hp : x.parts[p]? = some v) :
    chunk 10 (leVal (x.record.csi ++ ys)) p = v := by
  have hlt : p < x.parts.length := (List.getElem?_eq_some_iff.mp hp).1
  have hcsi : 10 * x.parts.length ≤ 8 * x.csiLen := by
    rw [length_parts, csiLen_eq]
    omega
  have hpacked : packed 10 x.parts < 256 ^ x.csiLen :=
    calc packed 10 x.parts < 2 ^ (10 * x.parts.length) := packed_lt (by decide) x.parts_lt
      _ ≤ 2 ^ (8 * x.csiLen) := Nat.pow_le_pow_right (by decide) hcsi
      _ = 256 ^ x.csiLen := by rw [Nat.pow_mul]
  rw [record, chunk_leVal_append (by rw [length_leBytes]; omega), leVal_leBytes_of_lt hpacked,
    chunk_packed x.parts_lt hp]

end Content

/-! ### Decode after encode -/

/-- Decoding the packet of a record: the status, apart from the time stamp, the payload and the matrix are
    the ones that were packed, whatever the buffers held before. -/
theorem decode_record (h : Host) (x : Content) (trailing : UInt16) (buf : BufAddr) (st : CsiStruct) (dataBuf : DataBuf)
    (csiMatrix : CsiMatrix) :
    (x.record.packet trailing).length ≤ 4096 ∧
    ∃ st' dataBuf' csiMatrix',
      recordStatus h (buf.overlay (x.record.packet trailing)) (x.record.packet trailing).length st = some st' ∧
      recordCsiPayload (buf.overlay (x.record.packet trailing)) st' dataBuf csiMatrix = some (dataBuf', csiMatrix') ∧
      st' = x.record.csiStruct st'.tstamp trailing ∧
      st'.csiLen.toNat = x.csiLen ∧ st'.payloadLen.toNat = x.payload.length ∧
      dataBuf'.first? x.payload.length = some x.payload ∧
      ∀ (r c : Fin 3) (k : Fin 114), (r : ℕ) < x.nr.toNat → (c : ℕ) < x.nc.toNat → (k : ℕ) < x.numTones.toNat →
        (csiMatrix'.cell r c k).real.toInt = (x.entry r c k).real ∧
        (csiMatrix'.cell r c k).imag.toInt = (x.entry r c k).imag := by
  have hlen := x.record.len_le
  have hstatus := recordStatus_eq h (buf.overlay (x.record.packet trailing)) (x.record.len + 2) (by omega)
    (by omega) st
  have hst := x.record.statusAt_packet trailing h buf
  generalize statusAt h (buf.overlay (x.record.packet trailing)) (x.record.len + 2) = st' at hstatus hst
  have hcl : st'.csiLen.toNat = x.csiLen := by
    rw [hst, DeviceRecord.csiStruct, x.record.csiLen_toNat]
    exact x.length_record_csi
  have hpl : st'.payloadLen.toNat = x.payload.length := by
    rw [hst, DeviceRecord.csiStruct, x.record.payloadLen_toNat]
    rfl
  have hnr : st'.nr = x.nr := by rw [hst]; rfl
  have hnc : st'.nc = x.nc := by rw [hst]; rfl
  have hnt : st'.numTones = x.numTones := by rw [hst]; rfl
  have hpay := recordCsiPayload_eq (buf.overlay (x.record.packet trailing)) st'
    (by
      have := x.csiLen_le
      have := x.payload_le
      rw [hcl, hpl]
      exact ⟨by omega, by omega⟩)
    (by rw [hnr, hnc, hnt]; exact DimsFit.of_le ⟨x.nr_le, x.nc_le, x.numTones_le⟩) dataBuf csiMatrix
  have hpayload : payloadAt (buf.overlay (x.record.packet trailing)) x.csiLen x.payload.length = x.payload := by
    have := x.record.payloadAt_packet trailing buf
    rwa [x.length_record_csi] at this
  obtain ⟨ys, hcsi⟩ := x.record.csiAt_packet trailing buf
    (n := bytesRead (x.numTones.toNat * x.nc.toNat * x.nr.toNat)) (by
      rw [x.length_record_csi, x.csiLen_eq, bytesRead]
      omega)
  rw [hcl, hpl, hnr, hnc, hnt, hpayload, hcsi] at hpay
  refine ⟨by rw [DeviceRecord.length_packet]; omega, st', _, _, by rw [DeviceRecord.length_packet]; exact hstatus, hpay,
    hst, hcl, hpl, ?_, fun r c k hr hc hk => ?_⟩
  · rw [CArray.first?_overlay _ x.payload_le (Nat.le_refl _), List.take_length]
  · have himag := x.chunk_record ys ((x.getElem?_parts hr hc hk Nat.two_pos).trans rfl)
    have hreal := x.chunk_record ys ((x.getElem?_parts hr hc hk Nat.one_lt_two).trans rfl)
    simp only [filled, hr, hc, hk, and_self, if_true, csiEntry]
    exact ⟨toInt_part (x.entry r c k).real_mem hreal, toInt_part (x.entry r c k).imag_mem himag⟩

end AtherosCsi
