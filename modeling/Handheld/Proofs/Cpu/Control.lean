import Handheld.Cpu.Step

/-!
The switches of the processor: those of its interrupts and those that keep it from executing. An
instruction acts on them by its operation alone, and only six operations act on them at all.
-/

namespace Handheld

structure Control where
  ime : Bool
  imePending : Bool
  halted : Bool
  stopped : Bool
  locked : Bool
  deriving DecidableEq, Repr

def Cpu.control (cpu : Cpu) : Control :=
  ⟨cpu.registers.ime, cpu.registers.imePending, cpu.halted, cpu.stopped, cpu.locked⟩

namespace Control

def enable (s : Control) : Control := { s with ime := true, imePending := false }

def disable (s : Control) : Control := { s with ime := false, imePending := false }

/-- What an operation makes of the switches; STOP acts on them unless it switches the speed. -/
def after (s : Control) (switches : Bool) : Operation → Control
  | .enableInterrupts => if s.ime then s else { s with imePending := true }
  | .disableInterrupts => s.disable
  | .retInterrupt => s.enable
  | .halt => { s with halted := true }
  | .stop => if switches then s else { s with stopped := true }
  | .illegal _ => { s with locked := true }
  | _ => s

def promote (s : Control) (wasPending : Bool) : Control :=
  if wasPending && s.imePending then s.enable else s

end Control

namespace Registers

def switches (r : Registers) : Bool × Bool := (r.ime, r.imePending)

theorem set_switches (r : Registers) (x : Register) (v : UInt8) :
    (r.set x v).switches = r.switches := by
  cases x <;> rfl

theorem setPair_switches (r : Registers) (p : Pair) (w : UInt16) :
    (r.setPair p w).switches = r.switches := by
  cases p <;> rfl

theorem setStackPair_switches (r : Registers) (p : StackPair) (w : UInt16) :
    (r.setStackPair p w).switches = r.switches := by
  cases p <;> rfl

end Registers

namespace Core

variable {σ : Type} [ExternalMemory σ]

omit [ExternalMemory σ] in
theorem mapRegisters_control {c : Core σ} {f : Registers → Registers}
    (h : (f c.cpu.registers).switches = c.cpu.registers.switches) :
    (c.mapRegisters f).cpu.control = c.cpu.control := by
  simp only [Registers.switches, Prod.mk.injEq] at h
  simp only [mapRegisters, Cpu.control, h]

@[simp] theorem readOperand_control (c : Core σ) (o : Operand) :
    (c.readOperand o).2.cpu.control = c.cpu.control := by
  cases o <;> rfl

@[simp] theorem writeOperand_control (c : Core σ) (o : Operand) (v : UInt8) :
    (c.writeOperand o v).cpu.control = c.cpu.control := by
  cases o with
  | register r => exact mapRegisters_control (c.cpu.registers.set_switches r v)
  | atHL => rfl

@[simp] theorem push_control (c : Core σ) (w : UInt16) :
    (c.push w).cpu.control = c.cpu.control := rfl

theorem call_control (c : Core σ) (target : UInt16) :
    (c.call target).cpu.control = c.cpu.control := rfl

theorem ret_control (c : Core σ) : c.ret.cpu.control = c.cpu.control := rfl

@[simp] theorem modify_control (c : Core σ) (o : Operand) (f : UInt8 → Flags → UInt8 × Flags) :
    (c.modify o f).cpu.control = c.cpu.control := by
  rw [modify]
  exact (writeOperand_control _ o _).trans (c.readOperand_control o)

omit [ExternalMemory σ] in
@[simp] theorem follow_control (c : Core σ) (p : Pointer) :
    (c.follow p).2.cpu.control = c.cpu.control := by
  cases p <;> rfl

@[simp] theorem loadAFrom_control (c : Core σ) (a : UInt16) :
    (c.loadAFrom a).cpu.control = c.cpu.control := rfl

@[simp] theorem storeAAt_control (c : Core σ) (a : UInt16) :
    (c.storeAAt a).cpu.control = c.cpu.control := rfl

theorem executeLoad_control (c : Core σ) (i : Instruction) :
    (c.executeLoad i).cpu.control = c.cpu.control := by
  unfold executeLoad
  split
  case h_13 => exact mapRegisters_control (Registers.setStackPair_switches _ _ _)
  all_goals simp

theorem executeByte_control (c : Core σ) (op : Operation) :
    (c.executeByte op).cpu.control = c.cpu.control := by
  unfold executeByte
  split
  case h_1 => exact c.readOperand_control _
  case h_5 => exact c.readOperand_control _
  all_goals simp

omit [ExternalMemory σ] in
theorem branch_control {c : Core σ} {on : Option Condition} {go : Core σ → Core σ}
    (h : (go c).cpu.control = c.cpu.control) :
    (c.branch on go).1.cpu.control = c.cpu.control := by
  unfold branch
  split
  · exact h
  · rfl

theorem registersAfter_switches {r : Registers} {i : Instruction}
    (hdisable : i.operation ≠ .disableInterrupts) (henable : i.operation ≠ .enableInterrupts) :
    (registersAfter r i).switches = r.switches := by
  unfold registersAfter
  split
  case h_1 => exact r.setPair_switches _ _
  case h_6 => exact r.setPair_switches _ _
  case h_7 => exact r.setPair_switches _ _
  case h_15 h => exact absurd h hdisable
  case h_16 h => exact absurd h henable
  all_goals rfl

omit [ExternalMemory σ] in
theorem stop_control (c : Core σ) : c.stop.cpu.control =
    c.cpu.control.after (c.bus.model.isColor && c.bus.speedPrimed) .stop := by
  by_cases h : (c.bus.model.isColor && c.bus.speedPrimed) = true
  · simp [stop, Bus.switchSpeed, Bus.setDivider, Control.after, h]
  · simp [stop, Bus.switchSpeed, Bus.setDivider, Control.after, h, Cpu.control]

theorem execute_control (c : Core σ) (i : Instruction) : (c.execute i).1.cpu.control =
    c.cpu.control.after (c.bus.model.isColor && c.bus.speedPrimed) i.operation := by
  cases h : i.operation <;> simp only [execute, h]
  case stop => exact c.stop_control
  case jump | jumpRelative => exact branch_control rfl
  case call => exact branch_control (c.call_control _)
  case ret => exact branch_control c.ret_control
  case load | loadImmediate | storeA | loadA | storeAHigh | loadAHigh | storeAHighC | loadAHighC
      | storeAAbsolute | loadAAbsolute | storeSP | push | pop =>
    exact c.executeLoad_control i
  case accumulate | inc | dec | shift | testBit | resetBit | setBit =>
    exact c.executeByte_control _
  case loadPair | loadSP | loadHLSum | addSP | accumulateImmediate | incPair | decPair | addPair
      | decimalAdjust | complement | setCarry | complementCarry | rotateA | jumpHL =>
    exact mapRegisters_control (registersAfter_switches (by simp [h]) (by simp [h]))
  case disableInterrupts => simp only [mapRegisters, registersAfter, h]; rfl
  case enableInterrupts =>
    cases hime : c.cpu.registers.ime <;>
      simp [mapRegisters, registersAfter, h, Control.after, Cpu.control, hime]
  all_goals rfl

end Core
end Handheld
