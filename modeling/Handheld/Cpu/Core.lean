import Handheld.Bus
import Handheld.Cpu.Instruction

/-!
The processor with the bus it works on, and the primitive accesses that instructions are made of.
-/

namespace Handheld

structure Cpu where
  registers : Registers
  halted : Bool := false
  stopped : Bool := false
  /-- An illegal opcode was met; nothing is executed any more. -/
  locked : Bool := false
  cycles : Nat := 0
  deriving DecidableEq, Repr

def Cpu.postBoot (model : Model) : Cpu := { registers := .postBoot model }

structure Core (σ : Type) where
  cpu : Cpu
  bus : Bus σ

namespace Core
variable {σ : Type} [ExternalMemory σ]

def registers (c : Core σ) : Registers := c.cpu.registers

@[inline]
def mapRegisters (c : Core σ) (f : Registers → Registers) : Core σ :=
  { c with cpu := { c.cpu with registers := f c.cpu.registers } }

def readByte (c : Core σ) (a : UInt16) : UInt8 × Core σ :=
  let (v, bus) := c.bus.read a
  (v, { c with bus })

def writeByte (c : Core σ) (a : UInt16) (v : UInt8) : Core σ := { c with bus := c.bus.write a v }

def readOperand (c : Core σ) : Operand → UInt8 × Core σ
  | .register r => (c.registers.get r, c)
  | .atHL => c.readByte c.registers.hl

def writeOperand (c : Core σ) (o : Operand) (v : UInt8) : Core σ :=
  match o with
  | .register r => c.mapRegisters (·.set r v)
  | .atHL => c.writeByte c.registers.hl v

def push (c : Core σ) (w : UInt16) : Core σ :=
  let sp := c.registers.sp
  ((c.writeByte (sp - 1) (highByte w)).writeByte (sp - 2) (lowByte w)).mapRegisters
    ({ · with sp := sp - 2 })

def pop (c : Core σ) : UInt16 × Core σ :=
  let sp := c.registers.sp
  let (low, c) := c.readByte sp
  let (high, c) := c.readByte (sp + 1)
  (word high low, c.mapRegisters ({ · with sp := sp + 2 }))

def jump (c : Core σ) (target : UInt16) : Core σ := c.mapRegisters ({ · with pc := target })

/-- Puts the address of the next instruction on the stack and jumps. -/
def call (c : Core σ) (target : UInt16) : Core σ := (c.push c.registers.pc).jump target

def ret (c : Core σ) : Core σ :=
  let (target, c) := c.pop
  c.jump target

/-- Replaces a byte operand by a function of it that also sets the flags. -/
def modify (c : Core σ) (o : Operand) (f : UInt8 → Flags → UInt8 × Flags) : Core σ :=
  let (v, c) := c.readOperand o
  let (res, flags) := f v c.registers.flags
  (c.mapRegisters (·.setFlags flags)).writeOperand o res

/-- The address of an indirect load, with HL moved on where the form says so. -/
def follow (c : Core σ) : Pointer → UInt16 × Core σ
  | .bc => (c.registers.bc, c)
  | .de => (c.registers.de, c)
  | .hlIncrement =>
    let hl := c.registers.hl
    (hl, c.mapRegisters (·.setHL (hl + 1)))
  | .hlDecrement =>
    let hl := c.registers.hl
    (hl, c.mapRegisters (·.setHL (hl - 1)))

def takes (c : Core σ) : Option Condition → Bool
  | none => true
  | some on => on.holds c.registers.flags

end Core
end Handheld
