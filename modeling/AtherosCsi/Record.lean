import AtherosCsi.CsiFun
import AtherosCsi.Lib.LittleEndian

/-! The records of the CSI device, as the decoders and the log reader take them to be: 23 status bytes, the
    length of the payload, the CSI, the payload and a trailing length, all numbers little-endian. The
    kernel side is not part of this repository, so this format is an assumption about it. -/

namespace AtherosCsi
open LittleEndian Loop

structure Status where
  tstamp : UInt64
  channel : UInt16
  phyerr : UInt8
  noise : UInt8
  rate : UInt8
  chanBW : UInt8
  numTones : UInt8
  nr : UInt8
  nc : UInt8
  rssi : UInt8
  rssi0 : UInt8
  rssi1 : UInt8
  rssi2 : UInt8

/-- A record that `data_buf` and `csi_matrix` have room for. -/
structure DeviceRecord extends Status where
  csi : List UInt8
  payload : List UInt8
  csi_le : csi.length ≤ 2565
  payload_le : payload.length ≤ 1500

namespace DeviceRecord
variable (r : DeviceRecord)

def statusBytes : List UInt8 :=
  leBytes 8 r.tstamp.toNat ++ leBytes 2 r.csi.length ++ leBytes 2 r.channel.toNat ++
    [r.phyerr, r.noise, r.rate, r.chanBW, r.numTones, r.nr, r.nc, r.rssi, r.rssi0, r.rssi1, r.rssi2]

def body : List UInt8 := r.statusBytes ++ leBytes 2 r.payload.length ++ r.csi ++ r.payload

/-- The length that the device puts behind the body, and that the logger copies in front of it. -/
def len : ℕ := 25 + r.csi.length + r.payload.length

/-- What a read of the device returns, for any trailing length. -/
def packet (trailing : UInt16) : List UInt8 := r.body ++ leBytes 2 trailing.toNat

def frame : List UInt8 := leBytes 2 r.len ++ r.body

@[simp] theorem length_statusBytes : r.statusBytes.length = 23 := by simp [statusBytes]

@[simp] theorem length_body : r.body.length = r.len := by simp [body, len]; omega

theorem len_le : r.len ≤ 4090 := by
  have := r.csi_le
  have := r.payload_le
  unfold len
  omega

@[simp] theorem length_packet (trailing : UInt16) : (r.packet trailing).length = r.len + 2 := by simp [packet]

@[simp] theorem length_frame : r.frame.length = 2 + r.len := by simp [frame]

end DeviceRecord

/-! ## Records with a CSI matrix -/

/-- A matrix entry that the device can send: both parts fit into ten bits. -/
structure DeviceEntry where
  real : ℤ
  imag : ℤ
  real_mem : -512 ≤ real ∧ real ≤ 511
  imag_mem : -512 ≤ imag ∧ imag ≤ 511

def tenBits (x : ℤ) : ℕ := (x % 1024).toNat

/-- The content of a record before it is packed: its status with dimensions that fit `csi_matrix`, the
    entries by receive antenna, transmit antenna and tone, and the payload. -/
structure Content extends Status where
  entry : ℕ → ℕ → ℕ → DeviceEntry
  payload : List UInt8
  nr_le : nr.toNat ≤ 3
  nc_le : nc.toNat ≤ 3
  numTones_le : numTones.toNat ≤ 114
  payload_le : payload.length ≤ 1500

namespace Content
variable (x : Content)

def entryParts (k c r : ℕ) : List ℕ := [tenBits (x.entry r c k).imag, tenBits (x.entry r c k).real]

def rowParts (k c : ℕ) : List ℕ := (List.range x.nr.toNat).flatMap (x.entryParts k c)

def toneParts (k : ℕ) : List ℕ := (List.range x.nc.toNat).flatMap (x.rowParts k)

/-- The parts of all entries: the receive antenna varies fastest, then the transmit antenna, then the tone. -/
def parts : List ℕ := (List.range x.numTones.toNat).flatMap x.toneParts

theorem length_entryParts (k c r : ℕ) : (x.entryParts k c r).length = 2 := rfl

theorem length_rowParts (k c : ℕ) : (x.rowParts k c).length = x.nr.toNat * 2 :=
  length_flatMap_range (x.length_entryParts k c) _

theorem length_toneParts (k : ℕ) : (x.toneParts k).length = x.nc.toNat * (x.nr.toNat * 2) :=
  length_flatMap_range (x.length_rowParts k) _

def csiLen : ℕ := (20 * x.nr.toNat * x.nc.toNat * x.numTones.toNat + 7) / 8

theorem csiLen_le : x.csiLen ≤ 2565 := by
  have h : 20 * x.nr.toNat * x.nc.toNat * x.numTones.toNat ≤ 20 * 3 * 3 * 114 :=
    Nat.mul_le_mul (Nat.mul_le_mul (Nat.mul_le_mul_left 20 x.nr_le) x.nc_le) x.numTones_le
  unfold csiLen
  omega

/-- The record with the entries packed into as few bytes as hold them, least significant bit first. -/
def record : DeviceRecord where
  toStatus := x.toStatus
  csi := leBytes x.csiLen (packed 10 x.parts)
  payload := x.payload
  csi_le := by rw [length_leBytes]; exact x.csiLen_le
  payload_le := x.payload_le

end Content

/-! ## Records that a log can hold -/

/-- A record for the log: its time stamp is exact as a double, and CSI that is there fills the matrix that
    the status announces. -/
structure LogRecord extends DeviceRecord where
  tstamp_lt : tstamp.toNat < 2 ^ 53
  csi_dims : csi = [] ∨
    (1 ≤ nr.toNat ∧ nr.toNat ≤ 3) ∧ (1 ≤ nc.toNat ∧ nc.toNat ≤ 3) ∧ (1 ≤ numTones.toNat ∧ numTones.toNat ≤ 114) ∧
      csi.length = (20 * nr.toNat * nc.toNat * numTones.toNat + 7) / 8

def logBytes (rs : List LogRecord) : List UInt8 := rs.flatMap fun r => r.frame

end AtherosCsi
