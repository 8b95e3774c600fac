import AtherosCsi.Theorems.Decode

/-! The decoders of `recvCSIToFile` and `recvCSIToDatabase` on the same packet. The second one never stores
    `csi_len`, so it decodes like the first one exactly when its structure held the right number before. -/

namespace AtherosCsi
open LittleEndian Reservoir

/-- A buffer whose header announces a matrix, a payload and lengths that both receivers have room for. -/
structure Acceptable (buf : BufAddr) (cnt : ℕ) : Prop where
  cnt_ge : 27 ≤ cnt
  cnt_le : cnt ≤ 4096
  nr_le : (buf.byte 17).toNat ≤ 3
  nc_le : (buf.byte 18).toNat ≤ 3
  numTones_le : (buf.byte 16).toNat ≤ 114
  payload_le : (buf.short 23).toNat ≤ 1500
  length_eq : 25 + (buf.short 8).toNat + (buf.short 23).toNat + 2 = cnt

/-- Both receivers decode the packet, to the same status apart from the time stamp, the same payload and
    the same matrix. `file` and `db` hold what each receiver had decoded before. -/
def DecodedAlike (h : Host) (spec : Timespec) (buf : BufAddr) (cnt : ℕ) (file db : CsiStruct × DataBuf × CsiMatrix) :
    Prop :=
  ∃ st data m st' data' m',
    recordStatus h buf cnt file.1 = some st ∧ recordCsiPayload buf st file.2.1 file.2.2 = some (data, m) ∧
    recordStatusDb h spec buf cnt db.1 = some st' ∧ recordCsiPayload buf st' db.2.1 db.2.2 = some (data', m') ∧
    { st' with tstamp := st.tstamp } = st ∧
    data.first? st.payloadLen.toNat = data'.first? st.payloadLen.toNat ∧
    ∀ (r c : Fin 3) (k : Fin 114), (r : ℕ) < st.nr.toNat → (c : ℕ) < st.nc.toNat → (k : ℕ) < st.numTones.toNat →
      m.cell r c k = m'.cell r c k

/-- The receivers decode alike exactly when `csi_len` of the database receiver, left from before, is the one
    in the packet. -/
theorem decodedAlike_iff (h : Host) (spec : Timespec) (buf : BufAddr) (cnt : ℕ)
    (file db : CsiStruct × DataBuf × CsiMatrix) (hbuf : Acceptable buf cnt) :
    DecodedAlike h spec buf cnt file db ↔ db.1.csiLen = buf.short 8 := by
  have h2 : 2 ≤ cnt := Nat.le_trans (by decide) hbuf.cnt_ge
  have hst := recordStatus_eq h buf cnt h2 hbuf.cnt_le file.1
  have hdb := recordStatusDb_eq h spec buf cnt h2 hbuf.cnt_le db.1
  have hfits : PayloadFits (buf.short 8).toNat (buf.short 23).toNat := by
    have := hbuf.length_eq
    have := hbuf.cnt_le
    exact ⟨hbuf.payload_le, Or.inr (by omega)⟩
  have hdims : DimsFit (buf.byte 17).toNat (buf.byte 18).toNat (buf.byte 16).toNat :=
    DimsFit.of_le ⟨hbuf.nr_le, hbuf.nc_le, hbuf.numTones_le⟩
  constructor
  · rintro ⟨st, data, m, st', data', m', hst', -, hdb', -, heq, -⟩
    rw [hst] at hst'
    rw [hdb] at hdb'
    cases hst'
    cases hdb'
    exact congrArg CsiStruct.csiLen heq
  · intro hcsi
    rw [hcsi] at hdb
    refine ⟨_, _, _, _, _, _, hst, recordCsiPayload_eq buf _ hfits hdims _ _, hdb,
      recordCsiPayload_eq buf _ hfits hdims _ _, rfl, ?_, fun r c k hr hc hk => ?_⟩
    · have hlen : (payloadAt buf (buf.short 8).toNat (buf.short 23).toNat).length = (buf.short 23).toNat := by
        simp [payloadAt]
      have hle : (payloadAt buf (buf.short 8).toNat (buf.short 23).toNat).length ≤ 1500 := hlen.trans_le hbuf.payload_le
      exact (CArray.first?_overlay file.2.1 hle hlen.ge).trans (CArray.first?_overlay db.2.1 hle hlen.ge).symm
    · simp only [filled]
      rw [if_pos ⟨hr, hc, hk⟩, if_pos ⟨hr, hc, hk⟩]

def onePacket : List UInt8 :=
  [0, 0, 0, 0, 0, 0, 0, 0, 3, 0, 0, 0, 0, 0, 0, 0, 1, 1, 1, 0, 0, 0, 0, 0, 0, 0xff, 0x03, 0x08, 28, 0]

theorem onePacket_acceptable : Acceptable (BufAddr.zero.overlay onePacket) 30 where
  cnt_ge := by decide
  cnt_le := by decide
  nr_le := by decide
  nc_le := by decide
  numTones_le := by decide
  payload_le := by decide
  length_eq := by decide

theorem decodedAlike_iff_onePacket : Acceptable (BufAddr.zero.overlay onePacket) 30 ∧
    (DecodedAlike Host.x86 ⟨0, 0⟩ (BufAddr.zero.overlay onePacket) 30
        (CsiStruct.zero, DataBuf.zero, CsiMatrix.zero) ({ CsiStruct.zero with csiLen := 3 }, DataBuf.zero, CsiMatrix.zero) ↔
      (3 : UInt16) = BufAddr.short (BufAddr.zero.overlay onePacket) 8) :=
  ⟨onePacket_acceptable, decodedAlike_iff _ _ _ _ _ _ onePacket_acceptable⟩

/-- With a zero structure the database receiver keeps `csi_len` at 0 for a packet with three bytes of CSI. -/
theorem not_decodedAlike_onePacket : Acceptable (BufAddr.zero.overlay onePacket) 30 ∧
    ¬ DecodedAlike Host.x86 ⟨0, 0⟩ (BufAddr.zero.overlay onePacket) 30
      (CsiStruct.zero, DataBuf.zero, CsiMatrix.zero) (CsiStruct.zero, DataBuf.zero, CsiMatrix.zero) := by
  refine ⟨onePacket_acceptable, ?_⟩
  rintro ⟨st, data, m, st', data', m', hst, -, hdb, -, heq, -⟩
  rw [recordStatus_eq _ _ 30 (by decide) (by decide)] at hst
  rw [recordStatusDb_eq _ _ _ 30 (by decide) (by decide)] at hdb
  cases hst
  cases hdb
  exact absurd (congrArg CsiStruct.csiLen heq) (by decide)

end AtherosCsi
