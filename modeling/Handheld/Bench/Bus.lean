import Handheld.Bus
import Handheld.Cpu.Instruction
import Handheld.Dma.Plain

/-!
A bus on the bench: blocks of bytes written and looked at, instructions listed one after another,
and the picture unit run on its own and watched. Addresses go on from the highest at the lowest.
-/

namespace Handheld

@[specialize]
def writeFrom {β : Type} (write : β → UInt16 → UInt8 → β) (target : β) (a : UInt16) :
    List UInt8 → β
  | [] => target
  | v :: rest => writeFrom write (write target a v) (a + 1) rest

def readFrom (read : UInt16 → UInt8) (a : UInt16) (count : Nat) : ByteArray :=
  ⟨((List.range count).map fun i => read (a + UInt16.ofNat i)).toArray⟩

namespace Bus
variable {σ α : Type} [ExternalMemory σ]

def load (b : Bus σ) (a : UInt16) (bytes : ByteArray) : Bus σ := writeFrom write b a bytes.toList

def dump (b : Bus σ) (a : UInt16) (count : Nat) : ByteArray := readFrom b.peek a count

def disassemble (b : Bus σ) (a : UInt16) : Nat → List Instruction
  | 0 => []
  | n + 1 =>
    let i := Instruction.decode b.peek a
    i :: b.disassemble i.next n

def runDots (b : Bus σ) (dots : Nat) : Bus σ := Nat.repeat stepPpu dots b

def watchDots (seen : Ppu → α) (dots : Nat) (acc : List α) : Nat → Bus σ → List α × Bus σ
  | 0, b => (acc.reverse, b)
  | n + 1, b =>
    let b := b.runDots dots
    watchDots seen dots (seen b.ppu :: acc) n b

/-- Dots up to the first after which the picture unit is as wanted, at most a number of them, with
the number of that dot after those already taken. -/
def runDotsUntil (wanted : Ppu → Bool) (taken : Nat) : Nat → Bus σ → Option Nat × Bus σ
  | 0, b => (none, b)
  | n + 1, b =>
    let b := b.stepPpu
    if wanted b.ppu then (some taken, b) else runDotsUntil wanted (taken + 1) n b

end Bus

def Ppu.load (p : Ppu) (a : UInt16) (bytes : ByteArray) : Ppu :=
  writeFrom writeVram p a bytes.toList

/-- Memory in which each byte is the exclusive or of the two bytes of its address. -/
def PlainBus.crossed : PlainBus where
  memory := .ofBytes _ ((List.range 0x10000).map fun i => UInt8.ofNat i ^^^ UInt8.ofNat (i / 256))

def Dma.run {β : Type} [DmaBus β] (d : Dma) (bus : β) (cycles : Nat) : Dma × β :=
  Nat.repeat (fun (d, bus) => d.step bus) cycles (d, bus)

end Handheld
