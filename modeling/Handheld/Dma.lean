/-!
Direct memory access: the copy of a page to sprite memory, one byte a cycle, and on a color console
the copy of blocks to video memory, either all at once or sixteen bytes in each horizontal blank.
-/

namespace Handheld

/-- What a transfer needs of the machine around it. -/
class DmaBus (β : Type) where
  readByte : β → UInt16 → UInt8
  writeOam : β → Nat → UInt8 → β
  writeVram : β → UInt16 → UInt8 → β
  /-- The number of the horizontal blank in progress, if there is one. -/
  hblank : β → Option Nat

inductive VramTransfer where
  /-- All blocks on the next cycle. -/
  | general (blocks : Nat)
  /-- One block in each horizontal blank; `copied` counts the bytes in blank number `line`. -/
  | hblank (blocks : Nat) (line : Option Nat) (copied : Nat)
  deriving DecidableEq, Repr

/-- A transfer to sprite memory that has come to byte `index`. -/
structure OamTransfer where
  source : UInt16
  index : Nat
  deriving DecidableEq, Repr

structure Dma where
  oam : Option OamTransfer := none
  /-- The page last asked for. -/
  oamPage : UInt8 := 0
  vram : Option VramTransfer := none
  source : UInt16 := 0
  destination : UInt16 := 0x8000
  /-- Cycles for which a finished general transfer still holds the bus. -/
  hold : Nat := 0
  deriving DecidableEq, Repr

namespace Dma

/-- Bytes of one block. -/
def blockLength : Nat := 16

/-- Cycles for which each block of a general transfer holds the bus. -/
def blockHold : Nat := 8

/-- An address confined to video memory and to a multiple of sixteen. -/
def vramDestination (a : UInt16) : UInt16 := 0x8000 ||| (a &&& 0x1FF0)

def ramBusy (d : Dma) : Bool := d.oam.isSome

def romBusy (d : Dma) : Bool :=
  0 < d.hold ||
    match d.vram with
    | some (.general _) => true
    | _ => false

/-- Blocks still to come, less one; all ones when no transfer waits for horizontal blanks. -/
def readControl (d : Dma) : UInt8 :=
  match d.vram with
  | some (.hblank blocks _ _) => UInt8.ofNat (blocks - 1) &&& 0x7F
  | _ => 0xFF

def read (d : Dma) (address : UInt16) : UInt8 :=
  match address with
  | 0xFF46 => d.oamPage
  | 0xFF55 => d.readControl
  | _ => 0xFF

/-- Starts a transfer, or with bit 7 clear cancels one that waits for horizontal blanks. -/
def writeControl (d : Dma) (v : UInt8) : Dma :=
  let blocks := v.toNat % 128 + 1
  if v &&& 0x80 = 0 then
    match d.vram with
    | some (.hblank _ _ _) => { d with vram := none }
    | _ => { d with vram := some (.general blocks) }
  else { d with vram := some (.hblank blocks none 0) }

def write (d : Dma) (address : UInt16) (v : UInt8) : Dma :=
  match address with
  | 0xFF46 => { d with oamPage := v, oam := some { source := v.toUInt16 <<< 8, index := 0 } }
  | 0xFF51 => { d with source := v.toUInt16 <<< 8 ||| (d.source &&& 0x00F0) }
  | 0xFF52 => { d with source := (d.source &&& 0xFF00) ||| (v &&& 0xF0).toUInt16 }
  | 0xFF53 =>
    { d with destination := vramDestination (v.toUInt16 <<< 8 ||| (d.destination &&& 0x00F0)) }
  | 0xFF54 =>
    { d with destination := vramDestination ((d.destination &&& 0x1F00) ||| v.toUInt16) }
  | 0xFF55 => d.writeControl v
  | _ => d

variable {β : Type} [DmaBus β]
open DmaBus

/-- Copies a byte to video memory; the flag is false once the destination has come to its end, from
where it goes back to the start. -/
def copyByte (d : Dma) (bus : β) : Dma × β × Bool :=
  let byte := readByte bus d.source
  let bus := writeVram bus d.destination byte
  if d.destination ≥ 0x9FFF then
    ({ d with source := d.source + 1, destination := 0x8000 }, bus, false)
  else ({ d with source := d.source + 1, destination := d.destination + 1 }, bus, true)

/-- Copies bytes up to a number of them, or to the end of video memory. -/
def copyBytes : Nat → Dma → β → Dma × β
  | 0, d, bus => (d, bus)
  | n + 1, d, bus =>
    match d.copyByte bus with
    | (d, bus, true) => copyBytes n d bus
    | (d, bus, false) => (d, bus)

def stepOam (d : Dma) (bus : β) : Dma × β :=
  match d.oam with
  | none => (d, bus)
  | some t =>
    let byte := readByte bus (t.source + UInt16.ofNat t.index)
    let next := if t.index + 1 < 160 then some { t with index := t.index + 1 } else none
    ({ d with oam := next }, writeOam bus t.index byte)

/-- The whole of a general transfer, after which the bus is held. -/
def stepGeneral (d : Dma) (blocks : Nat) (bus : β) : Dma × β :=
  let (d, bus) := d.copyBytes (blocks * blockLength) bus
  ({ d with vram := none, hold := blocks * blockHold }, bus)

/-- What is left of a transfer after one more byte in blank `line`, which then has `copied`. -/
def afterByte (blocks line copied : Nat) : Option VramTransfer :=
  if copied = blockLength then
    if blocks = 1 then none else some (.hblank (blocks - 1) (some line) copied)
  else some (.hblank blocks (some line) copied)

/-- One cycle of a transfer that copies a block in each horizontal blank. -/
def stepHBlank (d : Dma) (blocks : Nat) (line : Option Nat) (copied : Nat) (bus : β) : Dma × β :=
  match hblank bus with
  | none => (d, bus)
  | some current =>
    let copied := if line = some current then copied else 0
    if blockLength ≤ copied then (d, bus)
    else
      match d.copyByte bus with
      | (d, bus, true) => ({ d with vram := afterByte blocks current (copied + 1) }, bus)
      | (d, bus, false) => ({ d with vram := none }, bus)

def step (d : Dma) (bus : β) : Dma × β :=
  let (d, bus) := d.stepOam bus
  let d := { d with hold := d.hold - 1 }
  match d.vram with
  | none => (d, bus)
  | some (.general blocks) => d.stepGeneral blocks bus
  | some (.hblank blocks line copied) => d.stepHBlank blocks line copied bus

end Dma
end Handheld
