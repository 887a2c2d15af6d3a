import Handheld.Cpu.Execute

/-!
One step of the processor: an interrupt dispatch, an idle wait, or one instruction.
-/

namespace Handheld.Core
variable {σ : Type} [ExternalMemory σ]

def idleCycles : Nat := 4

/-- Cycles of an interrupt dispatch. -/
def dispatchCycles : Nat := 20

/-- A pending interrupt ends the wait of HALT, whether or not it can be dispatched. -/
def wakeFromHalt (c : Core σ) : Core σ :=
  if c.cpu.halted && c.bus.interrupts.pending != 0 then
    { c with cpu := { c.cpu with halted := false } }
  else c

def dispatch (c : Core σ) (irq : Interrupt) : Core σ :=
  let c : Core σ :=
    { cpu := { c.cpu with
        halted := false
        registers := { c.cpu.registers with ime := false } }
      bus := { c.bus with interrupts := c.bus.interrupts.acknowledge irq } }
  c.call irq.vector

def dispatchable? (c : Core σ) : Option Interrupt :=
  if c.registers.ime then c.bus.interrupts.highestPending? else none

/-- A stopped processor samples the buttons, and goes on when one is held or was requested. -/
def wakeFromStop (c : Core σ) : Core σ :=
  if c.cpu.stopped then
    let c := { c with bus := c.bus.syncJoypad }
    if c.bus.joypad.anyHeld || c.bus.interrupts.isRequested .joypad then
      { c with cpu := { c.cpu with stopped := false } }
    else c
  else c

def fetch (c : Core σ) : Instruction × Core σ :=
  let read (a : UInt16) : StateM (Bus σ) UInt8 := fun b => b.read a
  let pc := c.registers.pc
  match c with
  | { cpu, bus } =>
    let (i, bus) := (Instruction.decodeWith read pc).run bus
    (i, { cpu, bus })

/-- The interrupt enable that EI asked for takes effect after the instruction that follows it. -/
def promoteEnable (c : Core σ) (wasPending : Bool) : Core σ :=
  if wasPending && c.registers.imePending then
    c.mapRegisters ({ · with ime := true, imePending := false })
  else c

/-- Executes the instruction at the program counter, with the cycles it takes. -/
def runInstruction (c : Core σ) : Core σ × Nat :=
  let wasPending := c.registers.imePending
  let (i, c) := c.fetch
  let (c, taken) := (c.mapRegisters ({ · with pc := i.next })).execute i
  (c.promoteEnable wasPending, i.cycles taken)

def stepUncounted (c : Core σ) : Core σ × Nat :=
  if c.cpu.locked then (c, idleCycles)
  else
    let c := c.wakeFromHalt
    match c.dispatchable? with
    | some irq => (c.dispatch irq, dispatchCycles)
    | none =>
      let c := c.wakeFromStop
      if c.cpu.stopped || c.cpu.halted then (c, idleCycles) else c.runInstruction

def step (c : Core σ) : Core σ × Nat :=
  let (c, n) := c.stepUncounted
  ({ c with cpu := { c.cpu with cycles := c.cpu.cycles + n } }, n)

end Handheld.Core
