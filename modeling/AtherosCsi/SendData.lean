import AtherosCsi.CLibrary
import AtherosCsi.Lib.CArray
import AtherosCsi.Lib.Loop
import AtherosCsi.Lib.Scanf

/-! `sendData/sendData.c`, which sends frames for a receiver to measure. Its `main` takes the interface, the
    destination, the number of packets and the number of seconds from the command line, builds one frame, and
    sends it over and over. Failures of the socket, of `usleep` and of `sendto` are only printed, so they
    change nothing here. -/

namespace AtherosCsi
open Loop Scanf

/-! ## The frame -/

/-- What the program finds on its machine: the index and the hardware address of each interface, and what its
    C library makes of a hexadecimal number that does not fit an `unsigned int`. -/
structure Sender where
  ifindex : List Char → Int32
  hwaddr : List Char → CArray 6 UInt8
  wide : List Char → UInt32

structure SockaddrLl where
  sllFamily : UInt16
  sllProtocol : List UInt8
  sllIfindex : Int32
  sllHatype : UInt16
  sllPkttype : UInt8
  sllHalen : UInt8
  sllAddr : CArray 8 UInt8

/-- The local variables that `main` does not initialise, or not wholly. -/
structure SendLocals where
  dstAddr : CArray 6 UInt32
  sllAddr : CArray 8 UInt8

def defaultDestMac : List UInt32 := [0x00, 0x03, 0x7F, 0xB0, 0x20, 0x20]

/-- The format `%x:%x:%x:%x:%x:%x`. -/
def macFormat : List Directive :=
  [.hex, .literal ':', .hex, .literal ':', .hex, .literal ':', .hex, .literal ':', .hex, .literal ':', .hex]

/-- `DstAddr` after the command line has been read. -/
def dstAddrOf (wide : List Char → UInt32) (argv : List (List Char)) (dstAddr : CArray 6 UInt32) : CArray 6 UInt32 :=
  match argv[2]? with
  | some text => dstAddr.overlay (scan wide macFormat text)
  | none => dstAddr.overlay defaultDestMac

/-- The bytes that are stored where the numbers of `DstAddr` are assigned to `uint8_t`. -/
def lowBytes (dstAddr : CArray 6 UInt32) : List UInt8 := List.ofFn fun i => (dstAddr.elem i).toUInt8

structure Prepared where
  sendbuf : CArray 2048 UInt8
  txLen : ℕ
  socketAddress : SockaddrLl

/-- The loop that writes the packet data. -/
def fillPayload (sendbuf : CArray 2048 UInt8) (txLen : ℕ) : Option (CArray 2048 UInt8 × ℕ) :=
  forUp 32 1 1001 (fun _ s => do return (← s.1.set? s.2 0xaa, s.2 + 1)) (sendbuf, txLen)

/-- `main` up to the loops that send, for more than one argument. `strcpy` must not write behind `ifName`. -/
def prepare (m : Sender) (argv : List (List Char)) (locals : SendLocals) : Option Prepared := do
  let ifName ← written 16 (argv[1]?.getD "wlan0".toList)
  let dstAddr := dstAddrOf m.wide argv locals.dstAddr
  let header := lowBytes dstAddr ++ List.ofFn (m.hwaddr ifName).elem ++ [0x08, 0x00]
  let (sendbuf, txLen) ← fillPayload ((⟨fun _ => 0⟩ : CArray 2048 UInt8).overlay header) header.length
  return {
    sendbuf, txLen
    socketAddress := {
      sllFamily := 17, sllProtocol := [0x08, 0x00], sllIfindex := m.ifindex ifName, sllHatype := 1, sllPkttype := 3
      sllHalen := 6, sllAddr := locals.sllAddr.overlay (lowBytes dstAddr) } }

/-! ## Sending -/

inductive SendCall where
  | usleep (usec : UInt32)
  | sendto (frame : List UInt8) (dest : SockaddrLl)

structure SendState where
  cnt : Int32
  seconds : Int32
  calls : List SendCall

section Loops
variable (waitTime : Int32) (frame : List UInt8) (dest : SockaddrLl)

/-- `for(;Cnt>0;Cnt--)` -/
def packetStep (s : SendState) : Option SendState :=
  if s.cnt > 0 then
    some { s with cnt := s.cnt - 1, calls := s.calls ++ [.usleep waitTime.toUInt32, .sendto frame dest] }
  else none

theorem toInt_sub_one {x : Int32} (h : x > 0) : (x - 1).toInt = x.toInt - 1 ∧ 0 < x.toInt := by
  have hpos : 0 < x.toInt := (Int32.lt_iff_toInt_lt (x := 0)).mp h
  have hlt := x.toInt_lt
  rw [Int32.toInt_sub, show (1 : Int32).toInt = 1 from rfl, Int.bmod_eq_of_le (by omega) (by omega)]
  exact ⟨rfl, hpos⟩

theorem packetStep_decreases (s t : SendState) (h : packetStep waitTime frame dest s = some t) :
    t.cnt.toInt.toNat < s.cnt.toInt.toNat := by
  unfold packetStep at h
  split at h
  · rename_i hpos
    obtain ⟨hsub, hgt⟩ := toInt_sub_one hpos
    rw [← Option.some.inj h]
    simp only [hsub]
    omega
  · cases h

def sendSecond (s : SendState) : SendState :=
  iterate (packetStep waitTime frame dest) (fun s => s.cnt.toInt.toNat) (packetStep_decreases waitTime frame dest) s

/-- `for(;seconds>0;seconds--)` -/
def secondStep (s : SendState) : Option SendState :=
  if s.seconds > 0 then some { sendSecond waitTime frame dest s with seconds := s.seconds - 1 } else none

theorem secondStep_decreases (s t : SendState) (h : secondStep waitTime frame dest s = some t) :
    t.seconds.toInt.toNat < s.seconds.toInt.toNat := by
  unfold secondStep at h
  split at h
  · rename_i hpos
    obtain ⟨hsub, hgt⟩ := toInt_sub_one hpos
    rw [← Option.some.inj h]
    simp only [hsub]
    omega
  · cases h

end Loops

/-- The calls of the sending part, or `none` for the division by zero. -/
def sendPackets (frame : List UInt8) (dest : SockaddrLl) (cnt seconds : Int32) : Option (List SendCall) :=
  if cnt = 0 then none
  else
    let waitTime := 1000000 / cnt
    some (iterate (secondStep waitTime frame dest) (fun s => s.seconds.toInt.toNat)
      (secondStep_decreases waitTime frame dest) ⟨cnt, seconds, []⟩).calls

/-- `atoi` of an argument, or 1 where there is none. -/
def intArg (argv : List (List Char)) (i : ℕ) : Int32 :=
  match argv[i]? with
  | some text => Int32.ofInt (atoi text)
  | none => 1

/-- `main`. Without arguments it prints how to use it. -/
def sendMain (m : Sender) (argv : List (List Char)) (locals : SendLocals) : Option (List SendCall) :=
  if argv.length = 1 then some []
  else do
    let p ← prepare m argv locals
    let frame ← p.sendbuf.first? p.txLen
    sendPackets frame p.socketAddress (intArg argv 3) (intArg argv 4)

/-- `send.sh`, called with a number of seconds and a number of packets. -/
def sendScript (m : Sender) (locals : SendLocals) (seconds packets : List Char) : Option (List SendCall) :=
  sendMain m (["./send_Data", "wlan0", "28:cf:da:f3:db:33"].map String.toList ++ [packets, seconds]) locals

end AtherosCsi
