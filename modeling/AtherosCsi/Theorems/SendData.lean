import AtherosCsi.SendData

/-! What `sendData` sends. The inner loop uses up `Cnt`, which no one sets again, so all packets go out in the
    first second; and what `sscanf` does not find in the address comes from the stack. -/

namespace AtherosCsi
open Loop Scanf

/-! ### How often it sends -/

/-- `n` packets, each after a pause of `waitTime` microseconds. -/
def burst (waitTime : Int32) (frame : List UInt8) (dest : SockaddrLl) (n : ℕ) : List SendCall :=
  (List.replicate n [.usleep waitTime.toUInt32, .sendto frame dest]).flatten

section Loops
variable {waitTime : Int32} {frame : List UInt8} {dest : SockaddrLl}

@[simp] theorem length_burst (n : ℕ) : (burst waitTime frame dest n).length = n * 2 := by simp [burst]

theorem pos_iff {x : Int32} : x > 0 ↔ 0 < x.toInt := Int32.lt_iff_toInt_lt (x := 0)

theorem eq_zero_of_toInt {x : Int32} (h : x.toInt = 0) : x = 0 := Int32.toInt_inj.mp h

/-- The inner loop sends as many packets as `Cnt` says and leaves it at zero. -/
theorem sendSecond_eq (s : SendState) :
    sendSecond waitTime frame dest s =
      { s with cnt := if s.cnt > 0 then 0 else s.cnt, calls := s.calls ++ burst waitTime frame dest s.cnt.toInt.toNat } := by
  generalize hn : s.cnt.toInt.toNat = n
  induction n generalizing s with
  | zero =>
    have hstop : ¬ s.cnt > 0 := fun hpos => by
      have := pos_iff.mp hpos
      omega
    have hnone : packetStep waitTime frame dest s = none := if_neg hstop
    rw [sendSecond, iterate_of_none hnone, if_neg hstop]
    simp [burst]
  | succ n ih =>
    have hpos : s.cnt > 0 := pos_iff.mpr (by omega)
    obtain ⟨hsub, -⟩ := toInt_sub_one hpos
    have hsome : packetStep waitTime frame dest s = some { s with
        cnt := s.cnt - 1, calls := s.calls ++ [.usleep waitTime.toUInt32, .sendto frame dest] } := if_pos hpos
    have hnext := ih { s with cnt := s.cnt - 1, calls := s.calls ++ [.usleep waitTime.toUInt32, .sendto frame dest] }
      (by simp only [hsub]; omega)
    have hzero : (if s.cnt - 1 > 0 then 0 else s.cnt - 1) = 0 := by
      split
      · rfl
      · rename_i hle
        refine eq_zero_of_toInt ?_
        have := mt pos_iff.mpr hle
        omega
    rw [sendSecond] at hnext ⊢
    rw [iterate_of_some hsome, hnext, if_pos hpos, hzero]
    simp only [burst, List.replicate_succ, List.flatten_cons, List.append_assoc]

/-- Without packets left, the seconds that remain send nothing. -/
theorem iterate_secondStep_calls {s : SendState} (h : s.cnt.toInt ≤ 0) :
    (iterate (secondStep waitTime frame dest) (fun s => s.seconds.toInt.toNat)
      (secondStep_decreases waitTime frame dest) s).calls = s.calls := by
  refine (iterate_rule (P := fun t => t.cnt.toInt ≤ 0 ∧ t.calls = s.calls) ?_ s ⟨h, rfl⟩).2
  rintro t u ⟨hcnt, hcalls⟩ hstep
  have hstop : ¬ t.cnt > 0 := fun hpos => by
    have := pos_iff.mp hpos
    omega
  have hnone : t.cnt.toInt.toNat = 0 := by omega
  unfold secondStep at hstep
  split at hstep
  · rw [← Option.some.inj hstep, sendSecond_eq, hnone, if_neg hstop]
    exact ⟨hcnt, by simpa [burst] using hcalls⟩
  · cases hstep

theorem sendPackets_eq {cnt : Int32} (hcnt : cnt ≠ 0) (seconds : Int32) :
    sendPackets frame dest cnt seconds =
      some (burst (1000000 / cnt) frame dest (if seconds > 0 then cnt.toInt.toNat else 0)) := by
  rw [sendPackets, if_neg hcnt]
  refine congrArg some ?_
  by_cases hsec : seconds > 0
  · have hsome : secondStep (1000000 / cnt) frame dest ⟨cnt, seconds, []⟩ = some
        { sendSecond (1000000 / cnt) frame dest ⟨cnt, seconds, []⟩ with seconds := seconds - 1 } := if_pos hsec
    rw [iterate_of_some hsome, if_pos hsec, iterate_secondStep_calls]
    · rw [sendSecond_eq]
      rfl
    · rw [sendSecond_eq]
      simp only
      split
      · exact Int.le_refl 0
      · rename_i hle
        have := mt pos_iff.mpr hle
        omega
  · have hnone : secondStep (1000000 / cnt) frame dest ⟨cnt, seconds, []⟩ = none := if_neg hsec
    rw [iterate_of_none hnone, if_neg hsec]
    rfl

end Loops

/-- The sending part ends without dividing by zero, after `Cnt` packets for each of the seconds, with the pause
    before each that spreads them over a second. -/
def SendsRequested (frame : List UInt8) (dest : SockaddrLl) (cnt seconds : Int32) : Prop :=
  sendPackets frame dest cnt seconds =
    some (burst (1000000 / cnt) frame dest (cnt.toInt.toNat * seconds.toInt.toNat))

theorem burst_inj {waitTime : Int32} {frame : List UInt8} {dest : SockaddrLl} {m n : ℕ} :
    burst waitTime frame dest m = burst waitTime frame dest n ↔ m = n := by
  refine ⟨fun h => ?_, fun h => h ▸ rfl⟩
  have hlen := congrArg List.length h
  rw [length_burst, length_burst] at hlen
  omega

/-- It sends what was asked for exactly when that is nothing, or no more than one second of it. -/
theorem sendsRequested_iff (frame : List UInt8) (dest : SockaddrLl) (cnt seconds : Int32) :
    SendsRequested frame dest cnt seconds ↔ cnt < 0 ∨ 0 < cnt ∧ seconds ≤ 1 := by
  have hneg : cnt < 0 ↔ cnt.toInt < 0 := Int32.lt_iff_toInt_lt
  have hpos : 0 < cnt ↔ 0 < cnt.toInt := pos_iff
  have hone : seconds ≤ 1 ↔ seconds.toInt ≤ 1 := Int32.le_iff_toInt_le
  have hsec : seconds > 0 ↔ 0 < seconds.toInt := pos_iff
  rw [SendsRequested, hneg, hpos, hone]
  by_cases hcnt : cnt = 0
  · subst hcnt
    refine iff_of_false (fun h => by cases h) ?_
    rw [show (0 : Int32).toInt = 0 from rfl]
    omega
  · have hne : cnt.toInt ≠ 0 := fun h0 => hcnt (eq_zero_of_toInt h0)
    rw [sendPackets_eq hcnt, Option.some.injEq, burst_inj, if_congr hsec rfl rfl]
    rcases Int.lt_or_gt_of_ne hne with hlt | hgt
    · have hzero : cnt.toInt.toNat = 0 := by omega
      simp [hzero, hlt]
    · have hcount : 0 < cnt.toInt.toNat := by omega
      split
      · rename_i hmore
        rw [eq_comm, Nat.mul_eq_left (by omega)]
        omega
      · rename_i hnone
        have hzero : seconds.toInt.toNat = 0 := by omega
        rw [hzero]
        omega

/-- The usage text's own example asks for ten seconds of 100 packets each and gets 100 packets. -/
theorem not_sendsRequested_usage :
    let dest : SockaddrLl := ⟨17, [0x08, 0x00], 3, 1, 3, 6, ⟨fun _ => 0x20⟩⟩
    sendPackets [0xaa] dest 100 10 = some (burst 10000 [0xaa] dest 100) ∧ ¬ SendsRequested [0xaa] dest 100 10 := by
  intro dest
  have hsend : sendPackets [0xaa] dest 100 10 = some (burst 10000 [0xaa] dest 100) := sendPackets_eq (by decide) 10
  refine ⟨hsend, fun h => ?_⟩
  rw [SendsRequested, hsend, Option.some.injEq] at h
  exact absurd (burst_inj.mp h) (by decide)

/-! ### Whom it sends to -/

theorem fillPayload_overlay (a : CArray 2048 UInt8) {xs : List UInt8} (h : xs.length + 1000 ≤ 2048) :
    fillPayload (a.overlay xs) xs.length = some (a.overlay (xs ++ List.replicate 1000 0xaa), xs.length + 1000) := by
  let P : ℕ → CArray 2048 UInt8 × ℕ → Prop := fun i s =>
    s = (a.overlay (xs ++ List.replicate (i - 1) 0xaa), xs.length + (i - 1))
  have h0 : P 1 (a.overlay xs, xs.length) := by simp [P]
  have hloop : ∃ t, fillPayload (a.overlay xs) xs.length = some t ∧ P 1001 t := by
    refine forUp_rule P (by decide) (by decide) h0 fun i s hlo hhi hs => ?_
    obtain ⟨k, rfl⟩ : ∃ k, i = k + 1 := ⟨i - 1, by omega⟩
    have hlen : (xs ++ List.replicate k (0xaa : UInt8)).length = xs.length + k := by simp
    have hset := a.set?_overlay_length (show (xs ++ List.replicate k (0xaa : UInt8)).length < 2048 by omega) 0xaa
    rw [hlen, List.append_assoc, ← List.replicate_succ'] at hset
    exact ⟨_, by rw [hs, Nat.add_sub_cancel, hset, Option.bind_eq_bind, Option.bind_some]; rfl, rfl⟩
  obtain ⟨t, ht, hP⟩ := hloop
  rw [ht, hP]

@[simp] theorem length_lowBytes (dstAddr : CArray 6 UInt32) : (lowBytes dstAddr).length = 6 := by simp [lowBytes]

/-- The frame that `main` builds and the address it sends it to, for an interface name that fits `ifName`. -/
theorem prepare_spec (m : Sender) {argv : List (List Char)} (locals : SendLocals)
    (hname : (argv[1]?.getD "wlan0".toList).length < 16) :
    ∃ p, prepare m argv locals = some p ∧
      p.sendbuf.first? p.txLen = some (lowBytes (dstAddrOf m.wide argv locals.dstAddr) ++
        List.ofFn (m.hwaddr (argv[1]?.getD "wlan0".toList)).elem ++ [0x08, 0x00] ++ List.replicate 1000 0xaa) ∧
      p.txLen = 1014 ∧
      p.socketAddress.sllAddr.first? 6 = some (lowBytes (dstAddrOf m.wide argv locals.dstAddr)) := by
  generalize hdst : dstAddrOf m.wide argv locals.dstAddr = dstAddr
  generalize hif : argv[1]?.getD "wlan0".toList = ifName at hname ⊢
  have hwritten : written 16 ifName = some ifName := if_pos hname
  generalize hheader : lowBytes dstAddr ++ List.ofFn (m.hwaddr ifName).elem ++ [0x08, 0x00] = header
  have hlen : header.length = 14 := by simp [← hheader]
  have hfill := fillPayload_overlay ⟨fun _ => 0⟩ (show header.length + 1000 ≤ 2048 by omega)
  refine ⟨_, by simp only [prepare, hif, hdst, hwritten, Option.bind_eq_bind, Option.bind_some, hheader, hfill]; rfl, ?_, ?_, ?_⟩
  · have hall : (header ++ List.replicate 1000 (0xaa : UInt8)).length = header.length + 1000 := by
      rw [List.length_append, List.length_replicate]
    rw [CArray.first?_overlay _ (by omega) (Nat.le_of_eq hall.symm), ← hall, List.take_length]
  · rw [hlen]
  · rw [CArray.first?_overlay _ (by simp) (by simp), List.take_of_length_le (by simp)]

/-- The whole program, called with arguments: the frame, and what it sends of it. -/
theorem sendMain_eq (m : Sender) {argv : List (List Char)} (locals : SendLocals) (hargc : argv.length ≠ 1)
    (hname : (argv[1]?.getD "wlan0".toList).length < 16) :
    ∃ p, prepare m argv locals = some p ∧ sendMain m argv locals =
      sendPackets (lowBytes (dstAddrOf m.wide argv locals.dstAddr) ++
        List.ofFn (m.hwaddr (argv[1]?.getD "wlan0".toList)).elem ++ [0x08, 0x00] ++ List.replicate 1000 0xaa)
        p.socketAddress (intArg argv 3) (intArg argv 4) := by
  obtain ⟨p, hp, hframe, -⟩ := prepare_spec m locals hname
  refine ⟨p, hp, ?_⟩
  rw [sendMain, if_neg hargc, hp]
  simp only [Option.bind_eq_bind, Option.bind_some, hframe]

/-- `strcpy` writes behind `ifName` where the name of the interface is longer than 15 characters. -/
theorem ifName_fits_of_prepare {m : Sender} {argv : List (List Char)} {locals : SendLocals} {p : Prepared}
    (h : prepare m argv locals = some p) : (argv[1]?.getD "wlan0".toList).length < 16 := by
  obtain ⟨ifName, hif, -⟩ := Option.bind_eq_some_iff.mp h
  unfold written at hif
  split at hif
  · assumption
  · cases hif

/-- The six bytes of `ether_dhost` and the first six of `sll_addr`. -/
theorem prepare_dest (m : Sender) {argv : List (List Char)} (locals : SendLocals)
    (hname : (argv[1]?.getD "wlan0".toList).length < 16) :
    ∃ p, prepare m argv locals = some p ∧
      p.sendbuf.first? 6 = some (lowBytes (dstAddrOf m.wide argv locals.dstAddr)) ∧
      p.socketAddress.sllAddr.first? 6 = some (lowBytes (dstAddrOf m.wide argv locals.dstAddr)) := by
  obtain ⟨p, hp, hframe, hlen, haddr⟩ := prepare_spec m locals hname
  refine ⟨p, hp, ?_, haddr⟩
  rw [CArray.first?_take hframe (by omega), List.append_assoc, List.append_assoc, List.take_left' (length_lowBytes _)]

theorem length_scan_macFormat_iff (wide : List Char → UInt32) (text : List Char) :
    6 ≤ (scan wide macFormat text).length ↔ Numbers 5 text := by
  rw [← length_scan_iff wide 5 text, show macFormat = colonFormat 5 from rfl]
  have := length_scan_le wide 5 text
  omega

/-- Six numbers, or no second argument, leave nothing of what `DstAddr` held. -/
theorem dstAddrOf_congr (wide : List Char → UInt32) {argv : List (List Char)}
    (h : ∀ text, argv[2]? = some text → Numbers 5 text) (a b : CArray 6 UInt32) :
    dstAddrOf wide argv a = dstAddrOf wide argv b := by
  unfold dstAddrOf
  split
  · rename_i text htext
    exact CArray.overlay_eq_of_le a b ((length_scan_macFormat_iff wide text).mpr (h text htext))
  · exact CArray.overlay_eq_of_le a b (by decide)

/-- Where `sscanf` stops early, the element behind its last is what it was. -/
theorem exists_lowBytes_ne (wide : List Char → UInt32) {argv : List (List Char)} {text : List Char}
    (htext : argv[2]? = some text) (h : ¬ Numbers 5 text) :
    ∃ a b, lowBytes (dstAddrOf wide argv a) ≠ lowBytes (dstAddrOf wide argv b) := by
  have hlt : (scan wide macFormat text).length < 6 := by
    rw [← length_scan_macFormat_iff wide text] at h
    omega
  refine ⟨⟨fun _ => 0⟩, ⟨fun _ => 1⟩, fun heq => ?_⟩
  have hbyte := congrFun (List.ofFn_injective heq) ⟨_, hlt⟩
  simp only [dstAddrOf, htext] at hbyte
  rw [CArray.elem_overlay_of_le _ (Nat.le_refl _), CArray.elem_overlay_of_le _ (Nat.le_refl _)] at hbyte
  exact absurd (show (0 : UInt32).toUInt8 = (1 : UInt32).toUInt8 from hbyte) (by decide)

/-- `main` builds its frame without writing behind a buffer, and the destination in the frame and in the socket
    address does not depend on what its local variables held before. -/
def AddressDetermined (m : Sender) (argv : List (List Char)) : Prop :=
  ∀ locals locals' : SendLocals, ∃ p p', prepare m argv locals = some p ∧ prepare m argv locals' = some p' ∧
    p.sendbuf.first? 6 = p'.sendbuf.first? 6 ∧
    p.socketAddress.sllAddr.first? 6 = p'.socketAddress.sllAddr.first? 6

theorem AddressDetermined.ifName_fits {m : Sender} {argv : List (List Char)} (h : AddressDetermined m argv) :
    (argv[1]?.getD "wlan0".toList).length < 16 := by
  obtain ⟨p, -, hp, -⟩ := h ⟨⟨fun _ => 0⟩, ⟨fun _ => 0⟩⟩ ⟨⟨fun _ => 0⟩, ⟨fun _ => 0⟩⟩
  exact ifName_fits_of_prepare hp

theorem AddressDetermined.numbers {m : Sender} {argv : List (List Char)} (h : AddressDetermined m argv) {text : List Char}
    (htext : argv[2]? = some text) : Numbers 5 text := by
  by_contra hnot
  obtain ⟨a, b, hne⟩ := exists_lowBytes_ne m.wide htext hnot
  obtain ⟨p, p', hp, hp', hframe, -⟩ := h ⟨a, ⟨fun _ => 0⟩⟩ ⟨b, ⟨fun _ => 0⟩⟩
  obtain ⟨q, hq, hqframe, -⟩ := prepare_dest m ⟨a, ⟨fun _ => 0⟩⟩ h.ifName_fits
  obtain ⟨q', hq', hqframe', -⟩ := prepare_dest m ⟨b, ⟨fun _ => 0⟩⟩ h.ifName_fits
  cases hp.symm.trans hq
  cases hp'.symm.trans hq'
  rw [hqframe, hqframe', Option.some.injEq] at hframe
  exact hne hframe

/-- The command line determines the destination exactly when the name of the interface fits `ifName` and the
    address, if there is one, starts with six numbers with colons between them. -/
theorem addressDetermined_iff (m : Sender) (argv : List (List Char)) :
    AddressDetermined m argv ↔
      (argv[1]?.getD "wlan0".toList).length < 16 ∧ ∀ text, argv[2]? = some text → Numbers 5 text := by
  constructor
  · intro h
    exact ⟨h.ifName_fits, fun text htext => h.numbers htext⟩
  · rintro ⟨hname, haddr⟩ locals locals'
    obtain ⟨p, hp, hframe, hsock⟩ := prepare_dest m locals hname
    obtain ⟨p', hp', hframe', hsock'⟩ := prepare_dest m locals' hname
    have hsame := dstAddrOf_congr m.wide haddr locals.dstAddr locals'.dstAddr
    exact ⟨p, p', hp, hp', by rw [hframe, hframe', hsame], by rw [hsock, hsock', hsame]⟩

/-- The address of the usage text has five numbers, so the last byte is what the stack held. -/
theorem not_addressDetermined_usage :
    let m : Sender := ⟨fun _ => 3, fun _ => ⟨fun _ => 0x0a⟩, fun _ => 0xffffffff⟩
    let argv := ["./sendData", "wlan0", "00:7F:5D:3E:4A", "100", "10"].map String.toList
    lowBytes (dstAddrOf m.wide argv ⟨fun _ => 0⟩) = [0x00, 0x7f, 0x5d, 0x3e, 0x4a, 0x00] ∧
      lowBytes (dstAddrOf m.wide argv ⟨fun _ => 1⟩) = [0x00, 0x7f, 0x5d, 0x3e, 0x4a, 0x01] ∧
      ¬ AddressDetermined m argv := by
  intro m argv
  refine ⟨by decide, by decide, fun h => ?_⟩
  have hnum : Numbers 5 "00:7F:5D:3E:4A".toList := h.numbers rfl
  rw [← length_scan_macFormat_iff m.wide] at hnum
  exact absurd hnum (by decide)

end AtherosCsi
