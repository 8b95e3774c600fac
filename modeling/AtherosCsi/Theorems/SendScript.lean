import AtherosCsi.Theorems.SaveCsi
import AtherosCsi.Theorems.SendData

/-! What the sender puts on the air for a command line as a user types it: the address in two digits a byte, and the
    numbers in decimal. The address comes back from the text byte by byte. -/

namespace AtherosCsi
open Loop Scanf Sql

/-! ### The address -/

theorem digitChar_spec : ∀ n < 16, isHexDigit (Nat.digitChar n) = true ∧ hexDigit (Nat.digitChar n) = n := by decide

/-- A byte in two digits. -/
def byteText (b : UInt8) : HexText where
  spaces := []
  sign := []
  mark := []
  digits := [Nat.digitChar (b.toNat / 16), Nat.digitChar (b.toNat % 16)]
  all_spaces := by simp
  sign_mem := .inl rfl
  mark_mem := .inl rfl
  digits_ne := List.cons_ne_nil _ _
  all_digits := by
    have hb := b.toNat_lt
    exact List.forall_mem_cons.mpr ⟨(digitChar_spec _ (by omega)).1,
      List.forall_mem_singleton.mpr (digitChar_spec _ (Nat.mod_lt _ (by decide))).1⟩

theorem convert_byteText (wide : List Char → UInt32) (b : UInt8) :
    convert wide (byteText b).sign (byteText b).mark (byteText b).digits = b.toUInt32 := by
  have hb := b.toNat_lt
  have hvalue : hexValue (byteText b).digits = b.toNat := by
    simp only [hexValue, byteText, List.foldl_cons, List.foldl_nil]
    rw [(digitChar_spec _ (by omega)).2, (digitChar_spec _ (Nat.mod_lt _ (by decide))).2]
    omega
  have hsign : (byteText b).sign ≠ ['-'] := (List.cons_ne_nil _ _).symm
  rw [convert, hvalue, if_pos (by omega), if_neg hsign]
  refine UInt32.toNat_inj.mp ?_
  rw [UInt32.toNat_ofNat', Nat.mod_eq_of_lt (by omega), UInt8.toNat_toUInt32]

/-- Six bytes with colons between them, as in `28:cf:da:f3:db:33`. -/
def macText (mac : List UInt8) : List Char := [':'].intercalate (mac.map fun b => (byteText b).text)

theorem scan_macText (wide : List Char → UInt32) {mac : List UInt8} (hmac : mac.length = 6) :
    scan wide macFormat (macText mac) = mac.map UInt8.toUInt32 := by
  obtain ⟨b, bs, rfl⟩ := List.exists_cons_of_length_eq_add_one hmac
  have hscan := scan_intercalate wide (byteText b) (bs.map byteText)
  rw [← List.map_cons, List.map_map, List.map_map, List.length_map, Nat.succ.inj hmac] at hscan
  exact hscan.trans (List.map_congr_left fun b _ => convert_byteText wide b)

theorem lowBytes_overlay {mac : List UInt8} (hmac : mac.length = 6) (a : CArray 6 UInt32) :
    lowBytes (a.overlay (mac.map UInt8.toUInt32)) = mac := by
  refine List.ext_getElem (by rw [length_lowBytes, hmac]) fun i h _ => ?_
  rw [length_lowBytes] at h
  have hi : i < mac.length := hmac.symm ▸ h
  simp only [lowBytes, List.getElem_ofFn, CArray.overlay, List.getElem?_map, List.getElem?_eq_getElem hi, Option.map_some,
    Option.getD_some, UInt8.toUInt8_toUInt32]

/-! ### The program -/

theorem ofInt_atoi_decimal {x : Int32} (h : 0 < x.toInt) : Int32.ofInt (atoi (decimal x.toInt)) = x := by
  rw [atoi_decimal ⟨h, x.toInt_lt⟩, Int32.ofInt_toInt]

theorem sllIfindex_of_prepare {m : Sender} {argv : List (List Char)} {locals : SendLocals} {p : Prepared}
    (h : prepare m argv locals = some p) : p.socketAddress.sllIfindex = m.ifindex (argv[1]?.getD "wlan0".toList) := by
  obtain ⟨ifName, hif, h⟩ := Option.bind_eq_some_iff.mp h
  obtain ⟨_, -, h⟩ := Option.bind_eq_some_iff.mp h
  cases h
  unfold written at hif
  split at hif
  · rw [Option.some.inj hif]
  · cases hif

/-- Whatever its variables held before, the sender puts `packets` copies of one frame on the air, with a pause before
    each, however many seconds it is asked for: from its own address to the one that was typed, with 1000 bytes of
    payload. -/
theorem sendMain_typed (m : Sender) (locals : SendLocals) (program : List Char) {ifName : List Char} (hname : ifName.length < 16)
    {mac : List UInt8} (hmac : mac.length = 6) {packets seconds : Int32} (hpackets : 0 < packets.toInt)
    (hseconds : 0 < seconds.toInt) :
    ∃ dest, sendMain m [program, ifName, macText mac, decimal packets.toInt, decimal seconds.toInt] locals =
        some (burst (1000000 / packets)
          (mac ++ List.ofFn (m.hwaddr ifName).elem ++ [0x08, 0x00] ++ List.replicate 1000 0xaa) dest packets.toInt.toNat) ∧
      dest.sllAddr.first? 6 = some mac ∧ dest.sllIfindex = m.ifindex ifName := by
  have hname' : ([program, ifName, macText mac, decimal packets.toInt, decimal seconds.toInt][1]?.getD "wlan0".toList).length < 16 :=
    hname
  have hargc : [program, ifName, macText mac, decimal packets.toInt, decimal seconds.toInt].length ≠ 1 := by simp
  obtain ⟨p, hp, -, -, haddr⟩ := prepare_spec m locals hname'
  obtain ⟨p', hp', hmain⟩ := sendMain_eq m locals hargc hname'
  obtain rfl := Option.some.inj (hp.symm.trans hp')
  have hmac' : lowBytes (dstAddrOf m.wide [program, ifName, macText mac, decimal packets.toInt, decimal seconds.toInt]
      locals.dstAddr) = mac :=
    (congrArg (fun xs => lowBytes (locals.dstAddr.overlay xs)) (scan_macText m.wide hmac)).trans (lowBytes_overlay hmac _)
  rw [hmac'] at hmain haddr
  have hcnt : packets ≠ 0 := fun h0 => by
    rw [h0] at hpackets
    exact absurd hpackets (by decide)
  have hpackets' : intArg [program, ifName, macText mac, decimal packets.toInt, decimal seconds.toInt] 3 = packets :=
    ofInt_atoi_decimal hpackets
  have hseconds' : intArg [program, ifName, macText mac, decimal packets.toInt, decimal seconds.toInt] 4 = seconds :=
    ofInt_atoi_decimal hseconds
  refine ⟨p.socketAddress, ?_, haddr, sllIfindex_of_prepare hp⟩
  rw [hmain, hpackets', hseconds', sendPackets_eq hcnt, if_pos (pos_iff.mpr hseconds)]
  rfl

def testSender : Sender := ⟨fun _ => 3, fun _ => ⟨fun _ => 0x0a⟩, fun _ => 0⟩

theorem sendScript_eq (m : Sender) (locals : SendLocals) : sendScript m locals (decimal (10 : Int32).toInt) (decimal (100 : Int32).toInt) =
    sendMain m ["./send_Data".toList, "wlan0".toList, macText [0x28, 0xcf, 0xda, 0xf3, 0xdb, 0x33],
      decimal (100 : Int32).toInt, decimal (10 : Int32).toInt] locals := by
  have hmac : macText [0x28, 0xcf, 0xda, 0xf3, 0xdb, 0x33] = "28:cf:da:f3:db:33".toList := by decide
  rw [hmac]
  rfl

/-- `send.sh 10 100`. -/
theorem sendMain_typed_script : ∃ dest, sendScript testSender ⟨⟨fun _ => 0⟩, ⟨fun _ => 0⟩⟩ (decimal (10 : Int32).toInt)
      (decimal (100 : Int32).toInt) =
      some (burst (1000000 / 100) ([0x28, 0xcf, 0xda, 0xf3, 0xdb, 0x33] ++ List.ofFn (testSender.hwaddr "wlan0".toList).elem ++
        [0x08, 0x00] ++ List.replicate 1000 0xaa) dest (100 : Int32).toInt.toNat) ∧
    dest.sllAddr.first? 6 = some [0x28, 0xcf, 0xda, 0xf3, 0xdb, 0x33] ∧ dest.sllIfindex = testSender.ifindex "wlan0".toList := by
  rw [sendScript_eq]
  exact sendMain_typed testSender _ _ (by decide) rfl (by decide) (by decide)

end AtherosCsi
