import AtherosCsi.Theorems.Range
import AtherosCsi.Theorems.TruncatedLog

/-! From the device through the log to the reader. On a little-endian host the file receiver logs each
    record as its frame, but `read_log_file` never returns all of them: the last record always ends too
    near the end of the file. -/

namespace AtherosCsi
open LittleEndian

namespace DeviceRecord
variable (r : DeviceRecord)

def outcome : ReadOutcome :=
  .packet (r.packet (UInt16.ofNat r.len)) (by
    have := r.len_le
    rw [length_packet]
    omega)

theorem len_toNat : (UInt16.ofNat r.len).toNat = r.len := by
  have := r.len_le
  rw [UInt16.toNat_ofNat', Nat.mod_eq_of_lt (by omega)]

theorem recvStep_file {h : Host} (hh : h.byteOrder = .little) {s t : RecvState}
    (ht : recvStep h true s r.outcome = some t) : t.file = s.file ++ r.frame := by
  have hlen := r.len_le
  have hlast : BufAddr.short (s.bufAddr.overlay (r.packet (UInt16.ofNat r.len)))
      ((r.packet (UInt16.ofNat r.len)).length - 2) = UInt16.ofNat r.len := by
    rw [length_packet]
    exact congrArg CsiStruct.bufLen (r.statusAt_packet (UInt16.ofNat r.len) h s.bufAddr)
  obtain ⟨body, hbody, hfile⟩ := recvStep_log (by rw [length_packet]; omega) ht hlast
  have hfirst : (s.bufAddr.overlay (r.packet (UInt16.ofNat r.len))).first? r.len = some r.body := by
    rw [CArray.first?_overlay _ (by rw [length_packet]; omega) (by rw [length_packet]; omega), packet,
      List.take_left' r.length_body]
  rw [r.len_toNat, hfirst] at hbody
  rw [hfile, h.shortBytes_little hh, r.len_toNat, ← Option.some.inj hbody, frame]

end DeviceRecord

theorem recvLoop_file {h : Host} (hh : h.byteOrder = .little) (rs : List LogRecord) {s t : RecvState}
    (ht : recvLoop h true s (rs.map fun r => r.outcome) = some t) : t.file = s.file ++ logBytes rs := by
  induction rs generalizing s with
  | nil =>
    cases ht
    simp [logBytes]
  | cons r rs ih =>
    rw [List.map_cons, recvLoop_cons] at ht
    obtain ⟨u, hu, ht⟩ := Option.bind_eq_some_iff.mp ht
    rw [ih ht, r.recvStep_file hh hu, logBytes_cons, List.append_assoc]

/-- The receiver logs the records, and the reader returns exactly their entries. -/
def RoundTrip (h : Host) (past : ℕ → ℕ → UInt8) (s : RecvState) (rs : List LogRecord) : Prop :=
  ∃ t, recvLoop h true s (rs.map fun r => r.outcome) = some t ∧
    readLogFile (fun off => readCsi (past off)) t.file = .ok (rs.map fun r => some r.entry)

theorem readable_lt {rs : List LogRecord} (hrs : rs ≠ []) : readable rs (logBytes rs).length < rs.length := by
  induction rs with
  | nil => exact absurd rfl hrs
  | cons r rs ih =>
    rw [readable_cons, logBytes_cons, List.length_append, Nat.add_sub_cancel_left]
    split
    · rename_i hin
      have hne : rs ≠ [] := by
        rintro rfl
        simp [logBytes] at hin
      have := ih hne
      simp only [List.length_cons]
      omega
    · simp

/-- No list of records comes back complete. -/
theorem not_roundTrip (h : Host) (hh : h.byteOrder = .little) (past : ℕ → ℕ → UInt8) (s : RecvState) (hs : s.file = [])
    (rs : List LogRecord) (hrs : rs ≠ []) : ¬ RoundTrip h past s rs := by
  rintro ⟨t, ht, hread⟩
  have hfile : t.file = logBytes rs := by rw [recvLoop_file hh rs ht, hs, List.nil_append]
  rw [hfile] at hread
  have hlt := readable_lt hrs
  rcases Nat.eq_zero_or_pos (readable rs (logBytes rs).length) with h0 | h1
  · obtain ⟨r, rs', rfl⟩ := List.exists_cons_of_ne_nil hrs
    exact absurd (readLogFile_of_not_readable past List.prefix_rfl h0 hread) (by simp)
  · have hlen := congrArg List.length (Except.ok.inj
      ((readLogFile_of_readable past List.prefix_rfl h1).symm.trans hread))
    simp only [List.length_map, List.length_take] at hlen
    omega

def recvStart (st : CsiStruct) : RecvState := ⟨BufAddr.zero, DataBuf.zero, CsiMatrix.zero, st, []⟩

theorem not_roundTrip_two :
    ¬ RoundTrip Host.x86 (fun _ _ => 0) (recvStart CsiStruct.zero)
      [plainRecord 0 (by decide), plainRecord 400 (by decide)] :=
  not_roundTrip _ rfl _ _ rfl _ (by simp)

/-- One record without CSI and payload is logged as 27 bytes, from which nothing comes back. -/
theorem not_roundTrip_one :
    (∃ t, recvLoop Host.x86 true (recvStart CsiStruct.zero) [(plainRecord 0 (by decide)).outcome] = some t ∧
      t.file = [25, 0] ++ List.replicate 25 0) ∧
    readLogFile (fun _ => readCsi fun _ => 0) ([25, 0] ++ List.replicate 25 0) = .ok [none] ∧
    ¬ RoundTrip Host.x86 (fun _ _ => 0) (recvStart CsiStruct.zero) [plainRecord 0 (by decide)] := by
  have hbytes : logBytes [plainRecord 0 (by decide)] = [25, 0] ++ List.replicate 25 0 := by decide +kernel
  have hread : readLogFile (fun _ => readCsi fun _ => 0) (logBytes [plainRecord 0 (by decide)]) = .ok [none] := by
    have hblock := (plainRecord 0 (by decide)).readBlock_frame (fun _ _ => 0) 27 0 [] (by decide)
    rw [if_neg (by decide)] at hblock
    have hloop := readLoop_of_error (s := readStart _ (logBytes [plainRecord 0 (by decide)])) hblock
    simp only [readLogFile]
    rw [show (logBytes [plainRecord 0 (by decide)]).length = 27 by decide, hloop]
    rfl
  have hin : AllInRange true (recvStart CsiStruct.zero).bufAddr [(plainRecord 0 (by decide)).outcome] :=
    ⟨⟨by decide, by decide +kernel, by decide +kernel, by decide +kernel⟩, trivial⟩
  obtain ⟨t, ht⟩ := Option.isSome_iff_exists.mp ((recvLoop_isSome_iff Host.x86 true _ _).mpr hin)
  refine ⟨⟨t, ht, ?_⟩, hbytes ▸ hread, ?_⟩
  · rw [recvLoop_file rfl [plainRecord 0 (by decide)] ht, hbytes]
    rfl
  · rintro ⟨t, ht, hok⟩
    rw [recvLoop_file rfl _ ht] at hok
    exact absurd (hread.symm.trans hok) (by simp)

end AtherosCsi
