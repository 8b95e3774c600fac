import AtherosCsi.Theorems.QueryBuffer
import AtherosCsi.Theorems.TwoDecoders

/-! Which bytes decide what is decoded. The entries of a matrix take as many bytes as hold their bits,
    whatever the header says about the length of the CSI. So nothing that an earlier packet left behind
    reaches the database when the packet itself has these bytes, but payload bytes become CSI when the CSI
    of the packet is too short. -/

namespace AtherosCsi
open LittleEndian Reservoir

/-! ### Entries and the bytes that hold them -/

theorem firstBytes_congr {b b' : ℕ → UInt8} {n : ℕ} (h : ∀ i < n, b i = b' i) : firstBytes b n = firstBytes b' n :=
  List.map_congr_left fun i hi => h i (List.mem_range.mp hi)

theorem part_csiAt_congr {buf buf' : BufAddr} {n k p : ℕ} (hk : k ≤ n) (hp : 10 * (p + 1) ≤ 8 * k)
    (h : ∀ i < k, buf.byte (25 + i) = buf'.byte (25 + i)) : part (csiAt buf n) p = part (csiAt buf' n) p := by
  obtain ⟨m, rfl⟩ := Nat.exists_eq_add_of_le hk
  rw [part, part, csiAt, csiAt, firstBytes_add, firstBytes_add, firstBytes_congr h,
    chunk_leVal_append (by rw [length_firstBytes]; exact hp), chunk_leVal_append (by rw [length_firstBytes]; exact hp)]

/-- Two buffers with the same first bytes of CSI hold the same entries. -/
theorem csiEntry_congr {buf buf' : BufAddr} {nr nc numTones l : ℕ} (hl : 20 * (numTones * nc * nr) ≤ 8 * l)
    (h : ∀ i < l, buf.byte (25 + i) = buf'.byte (25 + i)) {r c k : ℕ} (hr : r < nr) (hc : c < nc) (hk : k < numTones) :
    csiEntry (csiAt buf (bytesRead (numTones * nc * nr))) nr nc r c k =
      csiEntry (csiAt buf' (bytesRead (numTones * nc * nr))) nr nc r c k := by
  have he := (entry_lt_iff hr hc).mpr hk
  have hbytes : (20 * (numTones * nc * nr) + 7) / 8 ≤ bytesRead (numTones * nc * nr) := by unfold bytesRead; omega
  have hsame : ∀ i < (20 * (numTones * nc * nr) + 7) / 8, buf.byte (25 + i) = buf'.byte (25 + i) := fun i hi =>
    h i (by omega)
  simp only [csiEntry, realPart, imagPart]
  rw [part_csiAt_congr hbytes (by omega) hsame, part_csiAt_congr hbytes (by omega) hsame]

/-! ### What is sent to the database -/

/-- The text of the second INSERT for a packet: `record_status`, `fill_csi_matrix` on what follows the first
    25 bytes, and the text that `save_csi_matrix` builds. -/
def csiDataText (h : Host) (spec : Timespec) (buf : BufAddr) (cnt : ℕ) (csiStatusId : ℤ) (st : CsiStruct)
    (m : CsiMatrix) : Option (List Char) := do
  let st ← recordStatusDb h spec buf cnt st
  let csiAddr := fun j : ℕ => buf.get? (csiStLen + 2 + j)
  let m ← fillCsiMatrix csiAddr st.nr.toNat st.nc.toNat st.numTones.toNat m
  csiDataQuery csiStatusId st m

/-- The text depends only on what the loops name: the time stamp, the dimensions and the cells in range. -/
theorem rowPiece_congr (id : ℤ) {st st' : CsiStruct} {m m' : CsiMatrix} {p : ℕ × ℕ} (hts : st.tstamp = st'.tstamp)
    (hnr : st.nr = st'.nr) (hnc : st.nc = st'.nc) (hnt : st.numTones = st'.numTones)
    (hcell : ∀ c < st.nc.toNat, cellAt m p.2 c p.1 = cellAt m' p.2 c p.1) :
    rowPiece id st m p = rowPiece id st' m' p := by
  have hcells : ((List.range st.nc.toNat).flatMap fun c =>
        [Sql.decimal (cellAt m p.2 c p.1).real.toInt, Sql.decimal (cellAt m p.2 c p.1).imag.toInt, Sql.decimal 0]) =
      (List.range st.nc.toNat).flatMap fun c =>
        [Sql.decimal (cellAt m' p.2 c p.1).real.toInt, Sql.decimal (cellAt m' p.2 c p.1).imag.toInt, Sql.decimal 0] :=
    List.flatMap_congr fun c hc => by rw [hcell c (List.mem_range.mp hc)]
  rw [rowPiece, rowPiece, dataTexts, dataTexts, hcells, hts, hnr, hnc, hnt]

theorem csiDataText_eq {h : Host} {spec : Timespec} {buf : BufAddr} {cnt : ℕ} {st st' : CsiStruct}
    (hst : recordStatusDb h spec buf cnt st = some st') (hdims : DimsFit st'.nr.toNat st'.nc.toNat st'.numTones.toNat)
    (id : ℤ) (m : CsiMatrix) :
    csiDataText h spec buf cnt id st m =
      some ("INSERT INTO csi_data VALUES".toList ++
        (positions st'.nr.toNat st'.numTones.toNat).flatMap (rowPiece id st'
          (filled (csiAt buf (bytesRead (st'.numTones.toNat * st'.nc.toNat * st'.nr.toNat))) st'.nr.toNat st'.nc.toNat
            st'.numTones.toNat m))) := by
  simp only [csiDataText, hst, Option.bind_eq_bind, Option.bind_some,
    fillCsiMatrix_eq st'.nr.toNat_lt st'.nc.toNat_lt st'.numTones.toNat_lt hdims (get?_csi buf hdims) m,
    csiDataQuery_eq id st' _ hdims]
  rfl

/-- A packet with room for the matrix that its header announces. -/
structure HoldsMatrix (bytes : List UInt8) : Prop where
  cnt_ge : 27 ≤ bytes.length
  cnt_le : bytes.length ≤ 4096
  nr_le : (bytes.getD 17 0).toNat ≤ 3
  nc_le : (bytes.getD 18 0).toNat ≤ 3
  numTones_le : (bytes.getD 16 0).toNat ≤ 114
  csi_le : 25 + (20 * ((bytes.getD 17 0).toNat * (bytes.getD 18 0).toNat * (bytes.getD 16 0).toNat) + 7) / 8 ≤ bytes.length

theorem recordStatusDb_bytes (h : Host) (spec : Timespec) {bytes : List UInt8} (hge : 27 ≤ bytes.length)
    (hle : bytes.length ≤ 4096) (buf : BufAddr) (st : CsiStruct) :
    ∃ st', recordStatusDb h spec (buf.overlay bytes) bytes.length st = some st' ∧ st'.tstamp = spec.finalTs.toUInt64 ∧
      st'.nr = bytes.getD 17 0 ∧ st'.nc = bytes.getD 18 0 ∧ st'.numTones = bytes.getD 16 0 := by
  have hbyte : ∀ i < 27, BufAddr.byte (buf.overlay bytes) i = bytes.getD i 0 := fun i hi =>
    buf.byte_overlay_getD hle (by omega)
  refine ⟨_, recordStatusDb_eq h spec (buf.overlay bytes) bytes.length (by omega) hle st, rfl, ?_⟩
  exact ⟨hbyte 17 (by decide), hbyte 18 (by decide), hbyte 16 (by decide)⟩

/-- What earlier packets left in the buffer, in the matrix and in the status does not show in the text. -/
theorem csiDataText_fresh (h : Host) (spec : Timespec) (bytes : List UInt8) (hbytes : HoldsMatrix bytes)
    (csiStatusId : ℤ) (buf buf' : BufAddr) (m m' : CsiMatrix) (st st' : CsiStruct) :
    ∃ text, csiDataText h spec (buf.overlay bytes) bytes.length csiStatusId st m = some text ∧
      csiDataText h spec (buf'.overlay bytes) bytes.length csiStatusId st' m' = some text := by
  have hge := hbytes.cnt_ge
  have hle := hbytes.cnt_le
  have hcsi := hbytes.csi_le
  obtain ⟨s, hst, hts, hnr, hnc, hnt⟩ := recordStatusDb_bytes h spec hge hle buf st
  obtain ⟨s', hst', hts', hnr', hnc', hnt'⟩ := recordStatusDb_bytes h spec hge hle buf' st'
  have hdims : DimsFit (bytes.getD 17 0).toNat (bytes.getD 18 0).toNat (bytes.getD 16 0).toNat :=
    DimsFit.of_le ⟨hbytes.nr_le, hbytes.nc_le, hbytes.numTones_le⟩
  have hN : (bytes.getD 17 0).toNat * (bytes.getD 18 0).toNat * (bytes.getD 16 0).toNat =
      (bytes.getD 16 0).toNat * (bytes.getD 18 0).toNat * (bytes.getD 17 0).toNat := by ring
  refine ⟨_, csiDataText_eq hst (by rw [hnr, hnc, hnt]; exact hdims) csiStatusId m, ?_⟩
  rw [csiDataText_eq hst' (by rw [hnr', hnc', hnt']; exact hdims), hnr, hnc, hnt, hnr', hnc', hnt']
  refine congrArg (fun rows => some ("INSERT INTO csi_data VALUES".toList ++ rows)) (List.flatMap_congr fun p hp => ?_)
  have hpos := mem_positions.mp hp
  refine rowPiece_congr csiStatusId (hts'.trans hts.symm) (hnr'.trans hnr.symm) (hnc'.trans hnc.symm)
    (hnt'.trans hnt.symm) fun c hc => ?_
  rw [hnc'] at hc
  have hr3 := hpos.2.trans_le hbytes.nr_le
  have hc3 := hc.trans_le hbytes.nc_le
  have hk114 := hpos.1.trans_le hbytes.numTones_le
  rw [cellAt_filled m' hpos.2 hc hpos.1 hr3 hc3 hk114, cellAt_filled m hpos.2 hc hpos.1 hr3 hc3 hk114]
  refine csiEntry_congr (l := bytes.length - 25) (by omega) (fun i hi => ?_) hpos.2 hc hpos.1
  rw [buf'.byte_overlay_getD hle (by omega), buf.byte_overlay_getD hle (by omega)]

theorem onePacket_holdsMatrix : HoldsMatrix onePacket where
  cnt_ge := by decide
  cnt_le := by decide
  nr_le := by decide
  nc_le := by decide
  numTones_le := by decide
  csi_le := by decide

theorem csiDataText_fresh_onePacket : HoldsMatrix onePacket ∧
    ∃ text, csiDataText Host.x86 ⟨0, 0⟩ (BufAddr.zero.overlay onePacket) onePacket.length 7 CsiStruct.zero CsiMatrix.zero =
        some text ∧
      csiDataText Host.x86 ⟨0, 0⟩ (CArray.overlay ⟨fun _ => 0xff⟩ onePacket) onePacket.length 7 CsiStruct.zero
        ⟨fun _ _ _ => ⟨1, 1⟩⟩ = some text :=
  ⟨onePacket_holdsMatrix, csiDataText_fresh _ _ _ onePacket_holdsMatrix _ _ _ _ _ _ _⟩

/-! ### Payload bytes decoded as CSI -/

theorem exists_entry {nr nc numTones e : ℕ} (he : e < numTones * nc * nr) :
    ∃ k c r, k < numTones ∧ c < nc ∧ r < nr ∧ (k * nc + c) * nr + r = e := by
  have hnr : 0 < nr := Nat.pos_of_ne_zero fun h0 => by simp [h0] at he
  have hnc : 0 < nc := Nat.pos_of_ne_zero fun h0 => by simp [h0] at he
  have hr : e % nr < nr := Nat.mod_lt _ hnr
  have hc : e / nr % nc < nc := Nat.mod_lt _ hnc
  have heq : (e / nr / nc * nc + e / nr % nc) * nr + e % nr = e := by
    rw [Nat.div_add_mod', Nat.div_add_mod']
  refine ⟨e / nr / nc, e / nr % nc, e % nr, ?_, hc, hr, heq⟩
  exact (entry_lt_iff hr hc).mp (by rw [heq]; exact he)

theorem twosComplement_inj {x y : ℕ} (hx : x < 2 ^ 10) (hy : y < 2 ^ 10) (h : twosComplement 10 x = twosComplement 10 y) :
    x = y := by
  unfold twosComplement at h
  split at h <;> split at h <;> omega

/-- Streams that differ in one bit differ in the part that holds it. -/
theorem part_ne {v v' i : ℕ} (h : v / 2 ^ i % 2 ≠ v' / 2 ^ i % 2) : part v (i / 10) ≠ part v' (i / 10) := by
  have hbit : ∀ x : ℕ, chunk 10 x (i / 10) / 2 ^ (i % 10) % 2 = x / 2 ^ i % 2 := by
    intro x
    have hi : i % 10 < 10 := Nat.mod_lt _ (by decide)
    have hpow : 2 ^ 10 = 2 ^ (i % 10) * (2 * 2 ^ (9 - i % 10)) := by
      rw [← Nat.pow_succ', ← Nat.pow_add]
      congr 1
      omega
    rw [chunk, hpow, Nat.mod_mul_right_div_self, Nat.mod_mul_right_mod, Nat.div_div_eq_div_mul, ← Nat.pow_add,
      Nat.div_add_mod]
  intro heq
  have hchunk := twosComplement_inj (chunk_lt 10 v (i / 10)) (chunk_lt 10 v' (i / 10))
    (by rw [← part_toInt, ← part_toInt, heq])
  exact h (by rw [← hbit, ← hbit, hchunk])

/-- A header and the CSI behind it, with lengths as the header tells them and `n` bytes of payload to come,
    for which the receiver has room. -/
structure CsiFront (header csi : List UInt8) (n : ℕ) : Prop where
  header_len : header.length = 25
  csiLen : leVal ((header.drop 8).take 2) = csi.length
  payloadLen : leVal ((header.drop 23).take 2) = n
  nr_le : (header.getD 17 0).toNat ≤ 3
  nc_le : (header.getD 18 0).toNat ≤ 3
  numTones_le : (header.getD 16 0).toNat ≤ 114
  payload_le : n ≤ 1500
  cnt_le : 25 + csi.length + n + 2 ≤ 4096

/-- `record_status` and `record_csi_payload` on a packet of the file receiver. -/
def decodePacket (h : Host) (bytes : List UInt8) (buf : BufAddr) (st : CsiStruct) (dataBuf : DataBuf) (m : CsiMatrix) :
    Option (CsiStruct × DataBuf × CsiMatrix) := do
  let st ← recordStatus h (buf.overlay bytes) bytes.length st
  let (dataBuf, m) ← recordCsiPayload (buf.overlay bytes) st dataBuf m
  return (st, dataBuf, m)

/-- Packets that differ in their payload only are decoded to the same matrix. -/
def CsiFromRegion (h : Host) (header csi trailing : List UInt8) (n : ℕ) (buf : BufAddr) (st : CsiStruct)
    (dataBuf : DataBuf) (m : CsiMatrix) : Prop :=
  ∀ payload payload' : List UInt8, payload.length = n → payload'.length = n → ∃ x x',
    decodePacket h (header ++ csi ++ payload ++ trailing) buf st dataBuf m = some x ∧
    decodePacket h (header ++ csi ++ payload' ++ trailing) buf st dataBuf m = some x' ∧
    ∀ (r c : Fin 3) (k : Fin 114), (r : ℕ) < (header.getD 17 0).toNat → (c : ℕ) < (header.getD 18 0).toNat →
      (k : ℕ) < (header.getD 16 0).toNat → x.2.2.cell r c k = x'.2.2.cell r c k

/-- Packets with the same header and the same CSI are decoded to the same matrix, whatever stands behind the CSI and
    whatever earlier packets have left in the variables. -/
def CsiAlone (h : Host) (header csi : List UInt8) (n : ℕ) (m : CsiMatrix) : Prop :=
  ∀ (tail tail' : List UInt8) (buf buf' : BufAddr) (st st' : CsiStruct) (dataBuf dataBuf' : DataBuf),
    tail.length = n + 2 → tail'.length = n + 2 → ∃ x x',
      decodePacket h (header ++ csi ++ tail) buf st dataBuf m = some x ∧
      decodePacket h (header ++ csi ++ tail') buf' st' dataBuf' m = some x' ∧
      ∀ (r c : Fin 3) (k : Fin 114), (r : ℕ) < (header.getD 17 0).toNat → (c : ℕ) < (header.getD 18 0).toNat →
        (k : ℕ) < (header.getD 16 0).toNat → x.2.2.cell r c k = x'.2.2.cell r c k

section Region
variable {header csi : List UInt8} {n : ℕ} (hfront : CsiFront header csi n) (h : Host) {tail : List UInt8}
  (htail : tail.length = n + 2) (buf : BufAddr)
include hfront htail

theorem CsiFront.length_eq : (header ++ csi ++ tail).length = 25 + csi.length + n + 2 := by
  simp only [List.length_append, hfront.header_len, htail]
  omega

theorem CsiFront.byte_eq {i : ℕ} (hi : i < 25) :
    BufAddr.byte (buf.overlay (header ++ csi ++ tail)) i = header.getD i 0 := by
  have hlen := hfront.length_eq htail
  have hcnt := hfront.cnt_le
  have hhead := hfront.header_len
  rw [buf.byte_overlay_getD (by omega) (by omega), List.append_assoc]
  simp [List.getD_eq_getElem?_getD, List.getElem?_append_left (show i < header.length by omega)]

theorem CsiFront.short_eq {i : ℕ} (hi : i + 2 ≤ 25) :
    (BufAddr.short (buf.overlay (header ++ csi ++ tail)) i).toNat = leVal ((header.drop i).take 2) := by
  have hlen := hfront.length_eq htail
  have hcnt := hfront.cnt_le
  have hhead := hfront.header_len
  rw [buf.short_overlay_toNat (by omega) (by omega), List.append_assoc, List.drop_append_of_le_length (by omega),
    List.take_append_of_le_length (by rw [List.length_drop]; omega)]

/-- What is decoded: the matrix is taken from the bytes behind the header, however many belong to the CSI. -/
theorem CsiFront.decodePacket_eq (st : CsiStruct) (dataBuf : DataBuf) (m : CsiMatrix) :
    ∃ x, decodePacket h (header ++ csi ++ tail) buf st dataBuf m = some x ∧
      x.2.2 = filled (csiAt (buf.overlay (header ++ csi ++ tail))
          (bytesRead ((header.getD 16 0).toNat * (header.getD 18 0).toNat * (header.getD 17 0).toNat)))
        (header.getD 17 0).toNat (header.getD 18 0).toNat (header.getD 16 0).toNat m := by
  have hlen := hfront.length_eq htail
  have hcnt := hfront.cnt_le
  have hst := recordStatus_eq h (buf.overlay (header ++ csi ++ tail)) (header ++ csi ++ tail).length (by omega) (by omega) st
  have hnr := hfront.byte_eq htail buf (show 17 < 25 by decide)
  have hnc := hfront.byte_eq htail buf (show 18 < 25 by decide)
  have hnt := hfront.byte_eq htail buf (show 16 < 25 by decide)
  have hcl := hfront.short_eq htail buf (show 8 + 2 ≤ 25 by decide)
  have hpl := hfront.short_eq htail buf (show 23 + 2 ≤ 25 by decide)
  have hfits : PayloadFits csi.length n := ⟨hfront.payload_le, Or.inr (by omega)⟩
  have hdims : DimsFit (header.getD 17 0).toNat (header.getD 18 0).toNat (header.getD 16 0).toNat :=
    DimsFit.of_le ⟨hfront.nr_le, hfront.nc_le, hfront.numTones_le⟩
  have hpay := recordCsiPayload_eq (buf.overlay (header ++ csi ++ tail))
    (statusAt h (buf.overlay (header ++ csi ++ tail)) (header ++ csi ++ tail).length)
    (by simp only [statusAt, hcl, hpl, hfront.csiLen, hfront.payloadLen]; exact hfits)
    (by simp only [statusAt, hnr, hnc, hnt]; exact hdims) dataBuf m
  simp only [decodePacket, hst, Option.bind_eq_bind, Option.bind_some, hpay]
  refine ⟨_, rfl, ?_⟩
  simp only [statusAt, hnr, hnc, hnt]

/-- The bytes behind the header. -/
theorem CsiFront.csi_byte {i : ℕ} (hi : i < csi.length + n + 2) :
    BufAddr.byte (buf.overlay (header ++ csi ++ tail)) (25 + i) = (csi ++ tail).getD i 0 := by
  have hlen := hfront.length_eq htail
  have hcnt := hfront.cnt_le
  rw [buf.byte_overlay_getD (by omega) (by omega), List.append_assoc, List.getD_eq_getElem?_getD,
    List.getElem?_append_right (by rw [hfront.header_len]; omega), hfront.header_len, Nat.add_sub_cancel_left,
    List.getD_eq_getElem?_getD]

theorem CsiFront.csiAt_bit {l : ℕ} (hl : csi.length < l) :
    csiAt (buf.overlay (header ++ csi ++ tail)) l / 2 ^ (8 * csi.length) % 2 = (tail.getD 0 0).toNat % 2 := by
  have hbyte := hfront.csi_byte htail buf (show csi.length < csi.length + n + 2 by omega)
  rw [csiAt, leVal_bit, bit, Nat.mul_div_cancel_left _ (by decide), Nat.mul_mod_right, Nat.pow_zero, Nat.div_one,
    List.getD_eq_getElem?_getD, firstBytes, List.getElem?_map, List.getElem?_range hl, Option.map_some, Option.getD_some,
    hbyte, List.getD_eq_getElem?_getD, List.getElem?_append_right (Nat.le_refl _), Nat.sub_self,
    List.getD_eq_getElem?_getD]

end Region

/-- Where the entries agree, all parts of the streams agree that belong to an entry. -/
theorem part_eq_of_csiEntry {v v' nr nc numTones : ℕ}
    (h : ∀ r c k, r < nr → c < nc → k < numTones → csiEntry v nr nc r c k = csiEntry v' nr nc r c k) {p : ℕ}
    (hp : p < 2 * (numTones * nc * nr)) : part v p = part v' p := by
  obtain ⟨k, c, r, hk, hc, hr, he⟩ := exists_entry (show p / 2 < numTones * nc * nr by omega)
  have hentry := h r c k hr hc hk
  simp only [csiEntry, realPart, imagPart, he, Complex.mk.injEq] at hentry
  rcases Nat.mod_two_eq_zero_or_one p with hpar | hpar
  · rw [show 2 * (p / 2) = p by omega] at hentry
    exact hentry.2
  · rw [show 2 * (p / 2) + 1 = p by omega] at hentry
    exact hentry.1

/-- When the CSI is too short, the lowest bit of what follows it belongs to an entry of the matrix. -/
theorem CsiFront.cells_ne {h : Host} {header csi tail tail' : List UInt8} {n : ℕ} (hfront : CsiFront header csi n)
    (htail : tail.length = n + 2) (htail' : tail'.length = n + 2) {buf : BufAddr} {st : CsiStruct} {dataBuf : DataBuf}
    {m : CsiMatrix}
    (hshort : 8 * csi.length < 20 * ((header.getD 16 0).toNat * (header.getD 18 0).toNat * (header.getD 17 0).toNat))
    (hlow : (tail.getD 0 0).toNat % 2 ≠ (tail'.getD 0 0).toNat % 2) {x x' : CsiStruct × DataBuf × CsiMatrix}
    (hx : decodePacket h (header ++ csi ++ tail) buf st dataBuf m = some x)
    (hx' : decodePacket h (header ++ csi ++ tail') buf st dataBuf m = some x') :
    ¬ ∀ (r c : Fin 3) (k : Fin 114), (r : ℕ) < (header.getD 17 0).toNat → (c : ℕ) < (header.getD 18 0).toNat →
      (k : ℕ) < (header.getD 16 0).toNat → x.2.2.cell r c k = x'.2.2.cell r c k := by
  intro hcells
  obtain ⟨y, hy, hm⟩ := hfront.decodePacket_eq h htail buf st dataBuf m
  obtain ⟨y', hy', hm'⟩ := hfront.decodePacket_eq h htail' buf st dataBuf m
  obtain rfl := Option.some.inj (hx.symm.trans hy)
  obtain rfl := Option.some.inj (hx'.symm.trans hy')
  rw [hm, hm'] at hcells
  have hin : csi.length < bytesRead ((header.getD 16 0).toNat * (header.getD 18 0).toNat * (header.getD 17 0).toNat) := by
    unfold bytesRead
    omega
  rw [← hfront.csiAt_bit htail buf hin, ← hfront.csiAt_bit htail' buf hin] at hlow
  refine part_ne hlow (part_eq_of_csiEntry (fun r c k hr hc hk => ?_)
    (show _ < 2 * ((header.getD 16 0).toNat * (header.getD 18 0).toNat * (header.getD 17 0).toNat) by omega))
  have hcell := hcells ⟨r, hr.trans_le hfront.nr_le⟩ ⟨c, hc.trans_le hfront.nc_le⟩ ⟨k, hk.trans_le hfront.numTones_le⟩
    hr hc hk
  simpa only [filled, hr, hc, hk, and_self, if_true] using hcell

theorem CsiFront.csiAlone {header csi : List UInt8} {n : ℕ} (hfront : CsiFront header csi n) (h : Host) (m : CsiMatrix)
    (henough : 20 * ((header.getD 16 0).toNat * (header.getD 18 0).toNat * (header.getD 17 0).toNat) ≤ 8 * csi.length) :
    CsiAlone h header csi n m := by
  intro tail tail' buf buf' st st' dataBuf dataBuf' htail htail'
  obtain ⟨x, hx, hm⟩ := hfront.decodePacket_eq h htail buf st dataBuf m
  obtain ⟨x', hx', hm'⟩ := hfront.decodePacket_eq h htail' buf' st' dataBuf' m
  refine ⟨x, x', hx, hx', fun r c k hr hc hk => ?_⟩
  rw [hm, hm']
  simp only [filled, hr, hc, hk, and_self, if_true]
  refine csiEntry_congr henough (fun i hi => ?_) hr hc hk
  rw [hfront.csi_byte htail buf (by omega), hfront.csi_byte htail' buf' (by omega)]
  simp [List.getD_eq_getElem?_getD, List.getElem?_append_left hi]

/-- The matrix does not depend on the payload exactly when the CSI has all bits of the matrix, or when there is no
    payload. Only in the first case does the CSI alone decide it: where it is too short and there is no payload, the
    missing bits are those of the trailing length and of what earlier packets have left in the buffer. -/
theorem csiFromRegion_iff (h : Host) {header csi trailing : List UInt8} {n : ℕ} (hfront : CsiFront header csi n)
    (htrailing : trailing.length = 2) (buf : BufAddr) (st : CsiStruct) (dataBuf : DataBuf) (m : CsiMatrix) :
    (CsiFromRegion h header csi trailing n buf st dataBuf m ↔
      20 * ((header.getD 17 0).toNat * (header.getD 18 0).toNat * (header.getD 16 0).toNat) ≤ 8 * csi.length ∨ n = 0) ∧
    (CsiAlone h header csi n m ↔
      20 * ((header.getD 17 0).toNat * (header.getD 18 0).toNat * (header.getD 16 0).toNat) ≤ 8 * csi.length) := by
  have hN : (header.getD 17 0).toNat * (header.getD 18 0).toNat * (header.getD 16 0).toNat =
      (header.getD 16 0).toNat * (header.getD 18 0).toNat * (header.getD 17 0).toNat := by ring
  have htail : ∀ {payload : List UInt8}, payload.length = n → (payload ++ trailing).length = n + 2 := fun hpayload => by
    rw [List.length_append, hpayload, htrailing]
  rw [hN]
  refine ⟨⟨fun hregion => ?_, ?_⟩, fun halone => ?_, hfront.csiAlone h m⟩
  · by_contra hcon
    obtain ⟨hshort, hn⟩ := not_or.mp hcon
    obtain ⟨n, rfl⟩ := Nat.exists_eq_succ_of_ne_zero hn
    have hlen : ∀ b : UInt8, (b :: List.replicate n 0).length = n + 1 := fun b => by simp
    obtain ⟨x, x', hx, hx', hcells⟩ := hregion (0 :: List.replicate n 0) (1 :: List.replicate n 0) (hlen 0) (hlen 1)
    rw [List.append_assoc (header ++ csi)] at hx hx'
    exact hfront.cells_ne (htail (hlen 0)) (htail (hlen 1)) (by omega) (by simp) hx hx' hcells
  · rintro (henough | rfl) payload payload' hpayload hpayload'
    · rw [List.append_assoc (header ++ csi), List.append_assoc (header ++ csi)]
      exact hfront.csiAlone h m henough _ _ buf buf st st dataBuf dataBuf (htail hpayload) (htail hpayload')
    · obtain ⟨x, hx, -⟩ := hfront.decodePacket_eq h (htail hpayload) buf st dataBuf m
      rw [← List.append_assoc] at hx
      obtain rfl := List.eq_nil_of_length_eq_zero hpayload
      obtain rfl := List.eq_nil_of_length_eq_zero hpayload'
      exact ⟨x, x, hx, hx, fun _ _ _ _ _ _ => rfl⟩
  · by_contra hshort
    have hlen : ∀ b : UInt8, (b :: List.replicate (n + 1) 0).length = n + 2 := fun b => by simp
    obtain ⟨x, x', hx, hx', hcells⟩ := halone _ _ buf buf st st dataBuf dataBuf (hlen 0) (hlen 1)
    exact hfront.cells_ne (hlen 0) (hlen 1) (by omega) (by simp) hx hx' hcells

/-- A header that announces a matrix of one entry, no CSI and three bytes of payload. -/
def noCsiHeader : List UInt8 := List.replicate 16 0 ++ [1, 1, 1] ++ List.replicate 4 0 ++ [3, 0]

theorem noCsiHeader_front : CsiFront noCsiHeader [] 3 where
  header_len := by decide
  csiLen := by decide
  payloadLen := by decide
  nr_le := by decide
  nc_le := by decide
  numTones_le := by decide
  payload_le := by decide
  cnt_le := by decide

theorem csiFromRegion_iff_noCsiHeader : CsiFront noCsiHeader [] 3 ∧
    (CsiFromRegion Host.x86 noCsiHeader [] [28, 0] 3 BufAddr.zero CsiStruct.zero DataBuf.zero CsiMatrix.zero ↔
      20 * ((noCsiHeader.getD 17 0).toNat * (noCsiHeader.getD 18 0).toNat * (noCsiHeader.getD 16 0).toNat) ≤
        8 * ([] : List UInt8).length ∨ 3 = 0) :=
  ⟨noCsiHeader_front, (csiFromRegion_iff _ noCsiHeader_front rfl _ _ _ _).1⟩

/-- Without CSI the payload is decoded as the matrix: it makes a difference whether it starts with 0 or 1. -/
theorem not_csiFromRegion_noCsiHeader : CsiFront noCsiHeader [] 3 ∧
    (∃ x x', decodePacket Host.x86 (noCsiHeader ++ [] ++ [0, 0, 0] ++ [28, 0]) BufAddr.zero CsiStruct.zero DataBuf.zero
          CsiMatrix.zero = some x ∧
        decodePacket Host.x86 (noCsiHeader ++ [] ++ [1, 0, 0] ++ [28, 0]) BufAddr.zero CsiStruct.zero DataBuf.zero
          CsiMatrix.zero = some x' ∧
        x.2.2.cell 0 0 0 ≠ x'.2.2.cell 0 0 0) ∧
    ¬ CsiFromRegion Host.x86 noCsiHeader [] [28, 0] 3 BufAddr.zero CsiStruct.zero DataBuf.zero CsiMatrix.zero := by
  have hlen : ([0, 0, 0] ++ [28, 0] : List UInt8).length = 3 + 2 ∧ ([1, 0, 0] ++ [28, 0] : List UInt8).length = 3 + 2 := ⟨rfl, rfl⟩
  have hlow : (([0, 0, 0] ++ [28, 0] : List UInt8).getD 0 0).toNat % 2 ≠ (([1, 0, 0] ++ [28, 0] : List UInt8).getD 0 0).toNat % 2 := by
    decide
  have hshort : 8 * ([] : List UInt8).length <
      20 * ((noCsiHeader.getD 16 0).toNat * (noCsiHeader.getD 18 0).toNat * (noCsiHeader.getD 17 0).toNat) := by decide
  obtain ⟨x, hx, -⟩ := noCsiHeader_front.decodePacket_eq Host.x86 hlen.1 BufAddr.zero CsiStruct.zero DataBuf.zero CsiMatrix.zero
  obtain ⟨x', hx', -⟩ := noCsiHeader_front.decodePacket_eq Host.x86 hlen.2 BufAddr.zero CsiStruct.zero DataBuf.zero CsiMatrix.zero
  have hne := noCsiHeader_front.cells_ne hlen.1 hlen.2 hshort hlow hx hx'
  refine ⟨noCsiHeader_front, ⟨x, x', hx, hx', fun hcell => hne fun r c k hr hc hk => ?_⟩, fun hregion => ?_⟩
  · obtain rfl : r = 0 := Fin.ext (Nat.lt_one_iff.mp hr)
    obtain rfl : c = 0 := Fin.ext (Nat.lt_one_iff.mp hc)
    obtain rfl : k = 0 := Fin.ext (Nat.lt_one_iff.mp hk)
    exact hcell
  · obtain ⟨y, y', hy, hy', hcells⟩ := hregion [0, 0, 0] [1, 0, 0] rfl rfl
    obtain rfl := Option.some.inj (hx.symm.trans hy)
    obtain rfl := Option.some.inj (hx'.symm.trans hy')
    exact hne hcells

end AtherosCsi
