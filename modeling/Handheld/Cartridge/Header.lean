import Handheld.Fault
import Handheld.Hardware
import Handheld.Memory

/-!
The header of a cartridge image, from 0134 to 014F: the title, the controller and what else is on
the cartridge, the sizes, and the checksum that the start-up program verifies.
-/

namespace Handheld

inductive ControllerKind where
  | romOnly
  | mbc1
  | mbc2
  | mbc3
  | mbc5
  deriving DecidableEq, Repr

def ControllerKind.name : ControllerKind → String
  | .romOnly => "ROM"
  | .mbc1 => "MBC1"
  | .mbc2 => "MBC2"
  | .mbc3 => "MBC3"
  | .mbc5 => "MBC5"

structure CartridgeKind where
  controller : ControllerKind
  ram : Bool := false
  battery : Bool := false
  timer : Bool := false
  rumble : Bool := false
  deriving DecidableEq, Repr

namespace CartridgeKind

def ofCode? (code : UInt8) : Option CartridgeKind :=
  match code with
  | 0x00 => some { controller := .romOnly }
  | 0x01 => some { controller := .mbc1 }
  | 0x02 => some { controller := .mbc1, ram := true }
  | 0x03 => some { controller := .mbc1, ram := true, battery := true }
  | 0x05 => some { controller := .mbc2, ram := true }
  | 0x06 => some { controller := .mbc2, ram := true, battery := true }
  | 0x08 => some { controller := .romOnly, ram := true }
  | 0x09 => some { controller := .romOnly, ram := true, battery := true }
  | 0x0F => some { controller := .mbc3, timer := true, battery := true }
  | 0x10 => some { controller := .mbc3, timer := true, ram := true, battery := true }
  | 0x11 => some { controller := .mbc3 }
  | 0x12 => some { controller := .mbc3, ram := true }
  | 0x13 => some { controller := .mbc3, ram := true, battery := true }
  | 0x19 => some { controller := .mbc5 }
  | 0x1A => some { controller := .mbc5, ram := true }
  | 0x1B => some { controller := .mbc5, ram := true, battery := true }
  | 0x1C => some { controller := .mbc5, rumble := true }
  | 0x1D => some { controller := .mbc5, rumble := true, ram := true }
  | 0x1E => some { controller := .mbc5, rumble := true, ram := true, battery := true }
  | _ => none

def name (k : CartridgeKind) : String :=
  k.controller.name ++ (if k.timer then "+TIMER" else "") ++ (if k.rumble then "+RUMBLE" else "")
    ++ (if k.ram then "+RAM" else "") ++ (if k.battery then "+BATTERY" else "")

end CartridgeKind

structure Header where
  title : String
  colorFlag : UInt8
  superFlag : UInt8
  kind : CartridgeKind
  romSize : Nat
  ramSize : Nat
  destination : UInt8
  licensee : UInt8
  version : UInt8
  headerChecksum : UInt8
  globalChecksum : Nat
  deriving DecidableEq, Repr

namespace Header

def endAddress : Nat := 0x150

def field (rom : ByteArray) (address : Nat) : UInt8 := byteAt rom address 0

/-- Whether a flag byte says that the program knows of color consoles. -/
def colorBit (flag : UInt8) : Bool := flag &&& 0x80 != 0

/-- A printed character of a title; all but the printable ones show as a question mark. -/
def titleChar (b : UInt8) : Char := if 0x20 ≤ b && b < 0x7F then Char.ofNat b.toNat else '?'

/-- The title up to its first zero byte, without blanks at its end. On a cartridge that knows of
color consoles the last byte is the flag. -/
def readTitle (rom : ByteArray) : String :=
  let length := if colorBit (field rom 0x143) then 15 else 16
  let bytes := (List.range length).map fun i => field rom (0x134 + i)
  let chars := (bytes.takeWhile (· != 0)).map titleChar
  String.ofList (chars.reverse.dropWhile (· == ' ')).reverse

def ramSizeOfCode (code : UInt8) : Nat :=
  match code with
  | 0x01 => 0x800
  | 0x02 => 0x2000
  | 0x03 => 0x8000
  | 0x04 => 0x20000
  | 0x05 => 0x10000
  | _ => 0

def parse (rom : ByteArray) : Except Fault Header :=
  if rom.size < endAddress then .error (.headerTooShort rom.size)
  else
    match CartridgeKind.ofCode? (field rom 0x147) with
    | none => .error (.unsupportedController (field rom 0x147))
    | some kind =>
      .ok {
        title := readTitle rom
        colorFlag := field rom 0x143
        superFlag := field rom 0x146
        kind
        romSize := 0x8000 <<< ((field rom 0x148).toNat % 16)
        ramSize := ramSizeOfCode (field rom 0x149)
        destination := field rom 0x14A
        licensee := field rom 0x14B
        version := field rom 0x14C
        headerChecksum := field rom 0x14D
        globalChecksum := (field rom 0x14E).toNat * 256 + (field rom 0x14F).toNat }

def supportsColor (h : Header) : Bool := colorBit h.colorFlag

def checksummed (rom : ByteArray) : List UInt8 :=
  (List.range 25).map fun i => field rom (0x134 + i)

/-- The checksum of a header: zero less each byte and less one for each. -/
def checksum (bytes : List UInt8) : UInt8 := bytes.foldl (fun acc b => acc - b - 1) 0

def checksumOk (rom : ByteArray) : Bool :=
  endAddress ≤ rom.size && checksum (checksummed rom) == field rom 0x14D

end Header
end Handheld
