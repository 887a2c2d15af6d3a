import Handheld.Proofs.Bus.Footprint
import Handheld.Proofs.Cpu.Fetch

/-!
The two forms of an operation on a byte: on a register, and on the byte that HL points at. The field
of an opcode that names the operand takes one value for memory, and nothing else tells the forms
apart.
-/

namespace Handheld

def Operand.toField : Operand → UInt8
  | .register .b => 0
  | .register .c => 1
  | .register .d => 2
  | .register .e => 3
  | .register .h => 4
  | .register .l => 5
  | .atHL => 6
  | .register .a => 7

def AluOp.toField : AluOp → UInt8
  | .add => 0
  | .addCarry => 1
  | .sub => 2
  | .subCarry => 3
  | .and => 4
  | .xor => 5
  | .or => 6
  | .compare => 7

def ShiftOp.toField : ShiftOp → UInt8
  | .rotateLeft => 0
  | .rotateRight => 1
  | .rotateLeftCarry => 2
  | .rotateRightCarry => 3
  | .shiftLeft => 4
  | .shiftRightSigned => 5
  | .swap => 6
  | .shiftRight => 7

inductive ByteAction where
  | accumulate (op : AluOp)
  | increment
  | decrement
  | shift (op : ShiftOp)
  | testBit (n : Fin 8)
  | resetBit (n : Fin 8)
  | setBit (n : Fin 8)
  deriving DecidableEq, Repr

namespace ByteAction

def on (f : ByteAction) (o : Operand) : Operation :=
  match f with
  | accumulate op => .accumulate op o
  | increment => .inc o
  | decrement => .dec o
  | shift op => .shift op o
  | testBit n => .testBit n o
  | resetBit n => .resetBit n o
  | setBit n => .setBit n o

def selected : ByteAction → Bool
  | accumulate _ | increment | decrement => false
  | shift _ | testBit _ | resetBit _ | setBit _ => true

def code (f : ByteAction) (o : Operand) : UInt8 :=
  match f with
  | increment => 0x04 + 8 * o.toField
  | decrement => 0x05 + 8 * o.toField
  | accumulate op => 0x80 + 8 * op.toField + o.toField
  | shift op => 8 * op.toField + o.toField
  | testBit n => 0x40 + 8 * UInt8.ofNat n + o.toField
  | resetBit n => 0x80 + 8 * UInt8.ofNat n + o.toField
  | setBit n => 0xC0 + 8 * UInt8.ofNat n + o.toField

theorem decode_code (f : ByteAction) (o : Operand) :
    (if f.selected then Operation.ofSelected (f.code o) else Operation.ofCode (f.code o)) =
      f.on o := by
  rcases o with x | _
  case register =>
    cases x <;> cases f with
    | increment | decrement => rfl
    | accumulate op | shift op => cases op <;> rfl
    | testBit n | resetBit n | setBit n => revert n; decide
  case atHL =>
    cases f with
    | increment | decrement => rfl
    | accumulate op | shift op => cases op <;> rfl
    | testBit n | resetBit n | setBit n => revert n; decide

/-- The instruction was read from the opcode of the action on the operand. -/
structure Encodes (f : ByteAction) (o : Operand) (i : Instruction) : Prop where
  code : i.code = f.code o
  selected : i.selected = f.selected
  operation : i.operation = if i.selected then .ofSelected i.code else .ofCode i.code

theorem Encodes.eq_on {f : ByteAction} {o : Operand} {i : Instruction} (h : f.Encodes o i) :
    i.operation = f.on o := by
  rw [h.operation, h.selected, h.code, decode_code]

/-- The byte that the action leaves, in A or in its operand, and F. -/
def outcome (f : ByteAction) (r : Registers) (v : UInt8) : UInt8 × UInt8 :=
  let carry := r.flags.carry
  match f with
  | accumulate op => (Alu.accumulate op r.a v carry).map id Flags.toByte
  | increment => (Alu.inc v carry).map id Flags.toByte
  | decrement => (Alu.dec v carry).map id Flags.toByte
  | shift op => (Alu.shift op v carry).map id Flags.toByte
  | testBit n => (v, (Alu.bitTest n v carry).toByte)
  | resetBit n => (v &&& ~~~Alu.bitMask n, r.f)
  | setBit n => (v ||| Alu.bitMask n, r.f)

end ByteAction

theorem Registers.set_get (r : Registers) (x : Register) : r.set x (r.get x) = r := by
  cases x <;> rfl

namespace Core

variable {σ : Type} [ExternalMemory σ]

def operand (c : Core σ) : Operand → UInt8
  | .register x => c.registers.get x
  | .atHL => c.bus.peek c.registers.hl

theorem readOperand_eq {c : Core σ} {o : Operand}
    (h : o = .atHL → Bus.InMemory c.registers.hl) : c.readOperand o = (c.operand o, c) := by
  cases o with
  | register x => rfl
  | atHL => simp only [readOperand, readByte, operand, c.bus.read_eq_peek (h rfl).ne_io]

theorem writeOperand_operand {c : Core σ} {o : Operand}
    (h : o = .atHL → Bus.InMemory c.registers.hl) : c.writeOperand o (c.operand o) = c := by
  cases o with
  | register x =>
    have hsame := c.registers.set_get x
    simp only [writeOperand, mapRegisters, operand]
    exact congrArg (fun r => (⟨{ c.cpu with registers := r }, c.bus⟩ : Core σ)) hsame
  | atHL => simp only [writeOperand, writeByte, operand, c.bus.write_peek (h rfl)]

theorem execute_on {c : Core σ} (f : ByteAction) {o : Operand} {i : Instruction}
    (hi : i.operation = f.on o) (h : o = .atHL → Bus.InMemory c.registers.hl) :
    (c.execute i).1 =
      let (result, flags) := f.outcome c.registers (c.operand o)
      let left := c.mapRegisters ({ · with f := flags })
      match f with
      | .accumulate _ => left.mapRegisters ({ · with a := result })
      | _ => left.writeOperand o result := by
  have hread := readOperand_eq h
  cases f with
  | accumulate op =>
    simp only [execute, hi, ByteAction.on, executeByte, hread]
    rfl
  | increment | decrement | shift op =>
    simp only [execute, hi, ByteAction.on, executeByte, modify, hread]
    rfl
  | resetBit n | setBit n =>
    simp only [execute, hi, ByteAction.on, executeByte, hread]
    rfl
  | testBit n =>
    -- A test leaves its operand alone, which is to write back what it holds.
    simp only [execute, hi, ByteAction.on, executeByte, hread, ByteAction.outcome]
    let flags := Alu.bitTest n (c.operand o) c.registers.flags.carry
    let left := c.mapRegisters ({ · with f := flags.toByte })
    have hsame : left.operand o = c.operand o := by
      cases o with
      | register x => cases x <;> rfl
      | atHL => rfl
    have hback : left.writeOperand o (left.operand o) = left := writeOperand_operand h
    rw [hsame] at hback
    exact hback.symm

/-- Where the byte in memory that HL points at equals a register, the two forms of an operation have
one outcome: F is the same, and so is what is left, for an operation of the accumulator in A and
otherwise in the operand. Nothing else changes but the program counter. -/
theorem forms_agree (c : Core σ) (f : ByteAction) {x : Register}
    (hmemory : Bus.InMemory c.registers.hl)
    (hsame : c.bus.peek c.registers.hl = c.registers.get x) {i j : Instruction}
    (hi : f.Encodes .atHL i) (hj : f.Encodes (.register x) j) :
    let (result, flags) := f.outcome c.registers (c.registers.get x)
    let left (k : Instruction) : Registers := { c.registers with pc := k.next, f := flags }
    match f with
    | .accumulate _ =>
      c.carryOut i = ⟨{ c.cpu with registers := { left i with a := result } }, c.bus⟩ ∧
      c.carryOut j = ⟨{ c.cpu with registers := { left j with a := result } }, c.bus⟩
    | _ =>
      (c.carryOut i).cpu = { c.cpu with registers := left i } ∧
      c.bus.Replaced (c.carryOut i).bus c.registers.hl result ∧
      c.carryOut j = ⟨{ c.cpu with registers := (left j).set x result }, c.bus⟩ := by
  have hread : Bus.InMemory (c.mapRegisters ({ · with pc := i.next })).registers.hl := hmemory
  have hform : c.carryOut i = _ := execute_on f hi.eq_on fun _ => hread
  have hform' : c.carryOut j = _ := execute_on f hj.eq_on nofun
  have hpc (k : Instruction) (v : UInt8) :
      f.outcome (c.mapRegisters ({ · with pc := k.next })).registers v = f.outcome c.registers v := by
    cases f <;> rfl
  have hmem : (c.mapRegisters ({ · with pc := i.next })).operand .atHL = c.registers.get x := hsame
  have hreg : (c.mapRegisters ({ · with pc := j.next })).operand (.register x) =
      c.registers.get x := by cases x <;> rfl
  rw [hpc, hmem] at hform
  rw [hpc, hreg] at hform'
  generalize f.outcome c.registers (c.registers.get x) = out at hform hform'
  obtain ⟨result, flags⟩ := out
  cases f with
  | accumulate op => exact ⟨hform, hform'⟩
  | _ =>
    dsimp only at hform hform' ⊢
    rw [hform]
    exact ⟨rfl, c.bus.write_replaced hmemory result, hform'⟩

theorem rotate_forms :
    let c : Core VolatileRam :=
      ⟨{ registers := { h := 0xC0, b := 0x85 } }, Bus.bare.write 0xC000 0x85⟩
    let m := c.carryOut ⟨0x100, .shift .rotateLeftCarry .atHL, 0x16, true, 0, 0⟩
    let d := c.carryOut ⟨0x100, .shift .rotateLeftCarry (.register .b), 0x10, true, 0, 0⟩
    Bus.InMemory c.registers.hl ∧ c.bus.peek c.registers.hl = c.registers.get .b ∧
      m.bus.peek 0xC000 = 0x0A ∧ d.registers.b = 0x0A ∧
      m.registers.f = 0x10 ∧ d.registers.f = 0x10 := by
  intro c m d
  have hhl : c.registers.hl = 0xC000 := by decide
  have hmemory : Bus.InMemory c.registers.hl := hhl ▸ .inl (by decide)
  have hsame : c.bus.peek c.registers.hl = c.registers.get .b :=
    hhl ▸ Bus.bare.peek_write_same (hhl ▸ hmemory) 0x85
  have hforms := c.forms_agree (.shift .rotateLeftCarry) hmemory hsame
    (i := ⟨0x100, .shift .rotateLeftCarry .atHL, 0x16, true, 0, 0⟩)
    (j := ⟨0x100, .shift .rotateLeftCarry (.register .b), 0x10, true, 0, 0⟩)
    ⟨rfl, rfl, rfl⟩ ⟨rfl, rfl, rfl⟩
  have hout : (ByteAction.shift .rotateLeftCarry).outcome c.registers (c.registers.get .b) =
      (0x0A, 0x10) := by decide
  rw [hout, hhl] at hforms
  obtain ⟨hcpu, hbus, hcore⟩ := hforms
  have hd : d.registers = ({ c.registers with pc := 0x102, f := 0x10 }).set .b 0x0A :=
    congrArg registers hcore
  refine ⟨hmemory, hsame, hbus.shown, congrArg (·.b) hd, ?_, congrArg (·.f) hd⟩
  exact congrArg (fun cpu : Cpu => cpu.registers.f) hcpu

end Core
end Handheld
