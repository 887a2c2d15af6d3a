import Handheld.Cartridge.Clock
import Handheld.Cartridge.Header
import Handheld.Cartridge.Storage

/-!
Bank controllers: writes below 8000 set their registers, which say what bank of the program shows at
4000, and what shows at A000.
-/

namespace Handheld

structure Mbc1 where
  low : UInt8 := 1
  upper : UInt8 := 0
  /-- The upper bits select the bank of the cartridge memory and not of the program. -/
  ramMode : Bool := false
  ramEnabled : Bool := false
  deriving DecidableEq, Repr

/-- The controller with memory of its own, 512 half bytes. -/
structure Mbc2 where
  romBank : UInt8 := 1
  ramEnabled : Bool := false
  nibbles : Memory 512 := .filled 512 0x0F

structure Mbc3 where
  romBank : UInt8 := 1
  /-- A bank of memory, or from 08 on a clock register. -/
  select : UInt8 := 0
  ramEnabled : Bool := false
  clock : ClockRegisters := {}
  deriving DecidableEq, Repr

structure Mbc5 where
  romBank : UInt16 := 1
  ramBank : UInt8 := 0
  ramEnabled : Bool := false
  /-- One bit of the memory bank drives a motor instead. -/
  rumble : Bool
  deriving DecidableEq, Repr

def enables (v : UInt8) : Bool := v &&& 0x0F == 0x0A

def atLeastOne (v : UInt8) : UInt8 := if v = 0 then 1 else v

inductive BankController where
  | romOnly
  | mbc1 (s : Mbc1)
  | mbc2 (s : Mbc2)
  | mbc3 (s : Mbc3)
  | mbc5 (s : Mbc5)

namespace BankController

def ofKind (k : CartridgeKind) : BankController :=
  match k.controller with
  | .romOnly => .romOnly
  | .mbc1 => .mbc1 {}
  | .mbc2 => .mbc2 {}
  | .mbc3 => .mbc3 {}
  | .mbc5 => .mbc5 { rumble := k.rumble }

def kind : BankController → ControllerKind
  | .romOnly => .romOnly
  | .mbc1 _ => .mbc1
  | .mbc2 _ => .mbc2
  | .mbc3 _ => .mbc3
  | .mbc5 _ => .mbc5

/-- Program bank at 4000, before it is reduced to the banks there are. -/
def romBank : BankController → Nat
  | .romOnly => 1
  | .mbc1 s =>
    let low := (atLeastOne (s.low &&& 0x1F)).toNat
    if s.ramMode then low else s.upper.toNat % 4 * 32 + low
  | .mbc2 s => (atLeastOne s.romBank).toNat
  | .mbc3 s => (atLeastOne s.romBank).toNat
  | .mbc5 s => s.romBank.toNat

def ramBank : BankController → Nat
  | .romOnly => 0
  | .mbc1 s => if s.ramMode then s.upper.toNat % 4 else 0
  | .mbc2 _ => 0
  | .mbc3 s => if s.select ≤ 0x03 then s.select.toNat else 0
  | .mbc5 s => s.ramBank.toNat

def ramEnabled : BankController → Bool
  | .romOnly => true
  | .mbc1 s => s.ramEnabled
  | .mbc2 s => s.ramEnabled
  | .mbc3 s => s.ramEnabled
  | .mbc5 s => s.ramEnabled

end BankController

namespace Mbc1

def writeControl (s : Mbc1) (address : UInt16) (v : UInt8) : Mbc1 :=
  if address < 0x2000 then { s with ramEnabled := enables v }
  else if address < 0x4000 then { s with low := v &&& 0x1F }
  else if address < 0x6000 then { s with upper := v &&& 0x03 }
  else if address < 0x8000 then { s with ramMode := v &&& 0x01 != 0 }
  else s

end Mbc1

namespace Mbc2

def writeControl (s : Mbc2) (address : UInt16) (v : UInt8) : Mbc2 :=
  if address < 0x4000 then
    if address &&& 0x0100 = 0 then { s with ramEnabled := enables v }
    else { s with romBank := atLeastOne (v &&& 0x0F) }
  else s

end Mbc2

namespace Mbc3

def writeControl (s : Mbc3) (address : UInt16) (v : UInt8) : Mbc3 :=
  if address < 0x2000 then { s with ramEnabled := enables v }
  else if address < 0x4000 then { s with romBank := atLeastOne (v &&& 0x7F) }
  else if address < 0x6000 then { s with select := v &&& 0x0F }
  else if address < 0x8000 then { s with clock := s.clock.writeLatch v }
  else s

def selectsClock (s : Mbc3) : Bool := 0x08 ≤ s.select

end Mbc3

namespace Mbc5

def writeControl (s : Mbc5) (address : UInt16) (v : UInt8) : Mbc5 :=
  if address < 0x2000 then { s with ramEnabled := enables v }
  else if address < 0x3000 then { s with romBank := (s.romBank &&& 0x100) ||| v.toUInt16 }
  else if address < 0x4000 then
    { s with romBank := ((v &&& 0x01).toUInt16 <<< 8) ||| (s.romBank &&& 0xFF) }
  else if address < 0x6000 then { s with ramBank := v &&& if s.rumble then 0x07 else 0x0F }
  else s

end Mbc5

namespace BankController

def writeControl (c : BankController) (address : UInt16) (v : UInt8) : BankController :=
  match c with
  | .romOnly => .romOnly
  | .mbc1 s => .mbc1 (s.writeControl address v)
  | .mbc2 s => .mbc2 (s.writeControl address v)
  | .mbc3 s => .mbc3 (s.writeControl address v)
  | .mbc5 s => .mbc5 (s.writeControl address v)

/-- Place of an address of the window in a memory of some size, around which the banks wrap. -/
def ramOffset (c : BankController) (size : Nat) (address : UInt16) : Nat :=
  (c.ramBank * 0x2000 + (address.toNat - 0xA000)) % size

/-- Place of an address of the window in the memory of the controller that has its own. -/
def nibbleOffset (address : UInt16) : Nat := (address.toNat - 0xA000) % 512

variable {σ : Type} [ExternalMemory σ]
open ExternalMemory

def readExternal (c : BankController) (ram : Option σ) (address : UInt16) : UInt8 :=
  match ram with
  | none => 0xFF
  | some ram => if size ram = 0 then 0xFF else readByte ram (c.ramOffset (size ram) address)

def writeExternal (c : BankController) (ram : σ) (address : UInt16) (v : UInt8) : σ :=
  let n := size ram
  if n = 0 then ram else writeByte ram (c.ramOffset n address) v

def readRam (c : BankController) (ram : Option σ) (address : UInt16) : UInt8 :=
  if !c.ramEnabled then 0xFF
  else
    match c with
    | .mbc2 s => 0xF0 ||| s.nibbles.read (nibbleOffset address)
    | .mbc3 s => if s.selectsClock then s.clock.read s.select else c.readExternal ram address
    | _ => c.readExternal ram address

def writesExternal (c : BankController) : Bool :=
  c.ramEnabled &&
    match c with
    | .mbc2 _ => false
    | .mbc3 s => !s.selectsClock
    | _ => true

def writeInternal (c : BankController) (address : UInt16) (v : UInt8) : BankController :=
  match c with
  | .mbc2 s =>
    if s.ramEnabled then
      .mbc2 { s with nibbles := s.nibbles.write (nibbleOffset address) (v &&& 0x0F) }
    else .mbc2 s
  | .mbc3 s =>
    if s.ramEnabled && s.selectsClock then .mbc3 { s with clock := s.clock.write s.select v }
    else .mbc3 s
  | c => c

end BankController
end Handheld
