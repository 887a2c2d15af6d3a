import Handheld.Dma
import Handheld.Ppu.Checked

/-!
Writes to the registers of the transfers and a cycle of them that take nothing on trust. They come
to nothing at a sum or a product too great for its counter, at a difference below zero, and at a
write outside sprite memory or video memory.
-/

namespace Handheld.Dma.Checked
open Handheld.Checked (sub)
open DmaBus

def add (size a b : Nat) : Option Nat := if a + b < size then some (a + b) else none

def mul (size a b : Nat) : Option Nat := if a * b < size then some (a * b) else none

def writeControl (d : Dma) (v : UInt8) : Option Dma := do
  let blocks ← add UInt8.size (v.toNat % 128) 1
  if v &&& 0x80 = 0 then
    match d.vram with
    | some (.hblank _ _ _) => return { d with vram := none }
    | _ => return { d with vram := some (.general blocks) }
  else return { d with vram := some (.hblank blocks none 0) }

def write (d : Dma) (address : UInt16) (v : UInt8) : Option Dma :=
  if address = 0xFF55 then writeControl d v else some (d.write address v)

variable {β : Type} [DmaBus β]

def writeOam (bus : β) (i : Nat) (v : UInt8) : Option β :=
  if i < 160 then some (DmaBus.writeOam bus i v) else none

def writeVram (bus : β) (a : UInt16) (v : UInt8) : Option β :=
  if 0x8000 ≤ a ∧ a ≤ 0x9FFF then some (DmaBus.writeVram bus a v) else none

def copyByte (d : Dma) (bus : β) : Option (Dma × β × Bool) := do
  let byte := readByte bus d.source
  let bus ← writeVram bus d.destination byte
  if d.destination ≥ 0x9FFF then
    return ({ d with source := d.source + 1, destination := 0x8000 }, bus, false)
  else
    let next ← add UInt16.size d.destination.toNat 1
    return ({ d with source := d.source + 1, destination := UInt16.ofNat next }, bus, true)

def copyBytes : Nat → Dma → β → Option (Dma × β)
  | 0, d, bus => some (d, bus)
  | n + 1, d, bus => do
    match ← copyByte d bus with
    | (d, bus, true) => copyBytes n d bus
    | (d, bus, false) => return (d, bus)

def stepOam (d : Dma) (bus : β) : Option (Dma × β) :=
  match d.oam with
  | none => some (d, bus)
  | some t => do
    let byte := readByte bus (t.source + UInt16.ofNat t.index)
    let bus ← writeOam bus t.index byte
    let index ← add UInt8.size t.index 1
    return ({ d with oam := if index < 160 then some { t with index } else none }, bus)

def stepGeneral (d : Dma) (blocks : Nat) (bus : β) : Option (Dma × β) := do
  let bytes ← mul UInt16.size blocks blockLength
  let (d, bus) ← copyBytes bytes d bus
  return ({ d with vram := none, hold := ← mul UInt32.size blocks blockHold }, bus)

def afterByte (blocks line copied : Nat) : Option (Option VramTransfer) :=
  if copied = blockLength then
    if blocks = 1 then some none
    else do return some (.hblank (← sub blocks 1) (some line) copied)
  else some (some (.hblank blocks (some line) copied))

def stepHBlank (d : Dma) (blocks : Nat) (line : Option Nat) (copied : Nat) (bus : β) :
    Option (Dma × β) :=
  match hblank bus with
  | none => some (d, bus)
  | some current =>
    let copied := if line = some current then copied else 0
    if blockLength ≤ copied then some (d, bus)
    else do
      match ← copyByte d bus with
      | (d, bus, true) =>
        let copied ← add UInt8.size copied 1
        return ({ d with vram := ← afterByte blocks current copied }, bus)
      | (d, bus, false) => return ({ d with vram := none }, bus)

def stepVram (d : Dma) (bus : β) : Option (Dma × β) :=
  match d.vram with
  | none => some (d, bus)
  | some (.general blocks) => stepGeneral d blocks bus
  | some (.hblank blocks line copied) => stepHBlank d blocks line copied bus

def release (hold : Nat) : Option Nat := if 0 < hold then sub hold 1 else some 0

def step (d : Dma) (bus : β) : Option (Dma × β) := do
  let (d, bus) ← stepOam d bus
  let hold ← release d.hold
  stepVram { d with hold } bus

end Handheld.Dma.Checked
