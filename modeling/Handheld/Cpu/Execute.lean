import Handheld.Cpu.Core

/-!
What each operation does. When an operation is executed the program counter already stands behind
its instruction; the flag given back is false where a branch was not taken.
-/

namespace Handheld

def highPage (low : UInt8) : UInt16 := 0xFF00 ||| low.toUInt16

namespace Core
variable {σ : Type} [ExternalMemory σ]

def loadAFrom (c : Core σ) (a : UInt16) : Core σ :=
  let (v, c) := c.readByte a
  c.mapRegisters ({ · with a := v })

def storeAAt (c : Core σ) (a : UInt16) : Core σ := c.writeByte a c.registers.a

def executeLoad (c : Core σ) (i : Instruction) : Core σ :=
  match i.operation with
  | .load dst src =>
    let (v, c) := c.readOperand src
    c.writeOperand dst v
  | .loadImmediate dst => c.writeOperand dst i.first
  | .storeA p =>
    let (a, c) := c.follow p
    c.storeAAt a
  | .loadA p =>
    let (a, c) := c.follow p
    c.loadAFrom a
  | .storeAHigh => c.storeAAt (highPage i.first)
  | .loadAHigh => c.loadAFrom (highPage i.first)
  | .storeAHighC => c.storeAAt (highPage c.registers.c)
  | .loadAHighC => c.loadAFrom (highPage c.registers.c)
  | .storeAAbsolute => c.storeAAt i.wordOperand
  | .loadAAbsolute => c.loadAFrom i.wordOperand
  | .storeSP =>
    let sp := c.registers.sp
    { c with bus := c.bus.writeWord i.wordOperand sp }
  | .push src => c.push (c.registers.stackPair src)
  | .pop dst =>
    let (w, c) := c.pop
    c.mapRegisters (·.setStackPair dst w)
  | _ => c

def executeByte (c : Core σ) (op : Operation) : Core σ :=
  match op with
  | .accumulate op src =>
    let (v, c) := c.readOperand src
    c.mapRegisters (·.accumulate op v)
  | .inc dst => c.modify dst fun v f => Alu.inc v f.carry
  | .dec dst => c.modify dst fun v f => Alu.dec v f.carry
  | .shift op dst => c.modify dst fun v f => Alu.shift op v f.carry
  | .testBit n src =>
    let (v, c) := c.readOperand src
    c.mapRegisters fun r => r.setFlags (Alu.bitTest n v r.flags.carry)
  | .resetBit n dst =>
    let (v, c) := c.readOperand dst
    c.writeOperand dst (v &&& ~~~Alu.bitMask n)
  | .setBit n dst =>
    let (v, c) := c.readOperand dst
    c.writeOperand dst (v ||| Alu.bitMask n)
  | _ => c

def registersAfter (r : Registers) (i : Instruction) : Registers :=
  match i.operation with
  | .loadPair dst => r.setPair dst i.wordOperand
  | .loadSP => { r with sp := r.hl }
  | .loadHLSum =>
    let (w, flags) := Alu.addSigned r.sp i.first
    (r.setFlags flags).setHL w
  | .addSP =>
    let (w, flags) := Alu.addSigned r.sp i.first
    { r.setFlags flags with sp := w }
  | .accumulateImmediate op => r.accumulate op i.first
  | .incPair dst => r.setPair dst (r.pair dst + 1)
  | .decPair dst => r.setPair dst (r.pair dst - 1)
  | .addPair src =>
    let (w, flags) := Alu.addWords r.hl (r.pair src) r.flags.zero
    (r.setFlags flags).setHL w
  | .decimalAdjust => r.decimalAdjust
  | .complement => r.complement
  | .setCarry => r.setCarry
  | .complementCarry => r.complementCarry
  | .rotateA op => r.rotateA op
  | .jumpHL => { r with pc := r.hl }
  | .disableInterrupts => { r with ime := false, imePending := false }
  | .enableInterrupts => if r.ime then r else { r with imePending := true }
  | _ => r

/-- Resets the divider, and switches the speed if a switch is armed; if not, waits for a button. -/
def stop (c : Core σ) : Core σ :=
  let (bus, switched) := (c.bus.setDivider 0).switchSpeed
  { c with bus, cpu := if switched then c.cpu else { c.cpu with stopped := true } }

def lockUp (c : Core σ) (i : Instruction) : Core σ :=
  { cpu := { c.cpu with locked := true }
    bus := c.bus.recordFault (.illegalOpcode i.code i.address) }

def branch (c : Core σ) (on : Option Condition) (go : Core σ → Core σ) : Core σ × Bool :=
  if c.takes on then (go c, true) else (c, false)

def execute (c : Core σ) (i : Instruction) : Core σ × Bool :=
  match i.operation with
  | .nop | .select => (c, true)
  | .stop => (c.stop, true)
  | .halt => ({ c with cpu := { c.cpu with halted := true } }, true)
  | .illegal _ => (c.lockUp i, true)
  | .jump on => c.branch on (·.jump i.wordOperand)
  | .jumpRelative on =>
    c.branch on fun c => c.mapRegisters fun r => { r with pc := r.pc + signExtend i.first }
  | .call on => c.branch on (·.call i.wordOperand)
  | .ret on => c.branch on (·.ret)
  | .retInterrupt => ((c.mapRegisters ({ · with ime := true, imePending := false })).ret, true)
  | .restart target => (c.call target.toUInt16, true)
  | .load .. | .loadImmediate _ | .storeA _ | .loadA _ | .storeAHigh | .loadAHigh | .storeAHighC
  | .loadAHighC | .storeAAbsolute | .loadAAbsolute | .storeSP | .push _ | .pop _ =>
    (c.executeLoad i, true)
  | .accumulate .. | .inc _ | .dec _ | .shift .. | .testBit .. | .resetBit .. | .setBit .. =>
    (c.executeByte i.operation, true)
  | .loadPair _ | .loadSP | .loadHLSum | .addSP | .accumulateImmediate _ | .incPair _ | .decPair _
  | .addPair _ | .decimalAdjust | .complement | .setCarry | .complementCarry | .rotateA _ | .jumpHL
  | .disableInterrupts | .enableInterrupts =>
    (c.mapRegisters (registersAfter · i), true)

end Core
end Handheld
