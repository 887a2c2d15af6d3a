import Handheld.Proofs.Cpu.Fetch
import Handheld.Proofs.Machine.Reachable

/-!
Conditional branches. One that is taken is the branch without a condition, and one that is not only
moves the program counter on.
-/

namespace Handheld

inductive Branch where
  | relative
  | absolute
  | call
  | ret
  deriving DecidableEq, Repr

def Condition.toField : Condition → UInt8
  | .nonzero => 0
  | .zero => 1
  | .noCarry => 2
  | .carry => 3

def Condition.opposite : Condition → Condition
  | .nonzero => .zero
  | .zero => .nonzero
  | .noCarry => .carry
  | .carry => .noCarry

theorem Condition.opposite_holds (f : Flags) (on : Condition) :
    on.opposite.holds f = !on.holds f := by
  cases on <;> simp [opposite, holds]

namespace Branch

def operation : Branch → Option Condition → Operation
  | relative => .jumpRelative
  | absolute => .jump
  | call => .call
  | ret => .ret

def code : Branch → Option Condition → UInt8
  | relative, none => 0x18
  | absolute, none => 0xC3
  | call, none => 0xCD
  | ret, none => 0xC9
  | relative, some on => 0x20 + 8 * on.toField
  | absolute, some on => 0xC2 + 8 * on.toField
  | call, some on => 0xC4 + 8 * on.toField
  | ret, some on => 0xC0 + 8 * on.toField

def length : Branch → Nat
  | relative => 2
  | absolute | call => 3
  | ret => 1

def cycles : Branch → Nat
  | relative => 12
  | absolute => 16
  | call => 24
  | ret => 16

/-- Cycles of the branch when its condition holds, and when it does not. -/
def conditionCycles : Branch → Nat × Nat
  | relative => (12, 8)
  | absolute => (16, 12)
  | call => (24, 12)
  | ret => (20, 8)

theorem ofCode_code (k : Branch) (on : Option Condition) :
    .ofCode (k.code on) = k.operation on := by
  cases on with
  | none => cases k <;> rfl
  | some on => cases k <;> cases on <;> rfl

theorem code_ne_selector (k : Branch) (on : Option Condition) :
    k.code on ≠ Instruction.selector := by
  cases on with
  | none => cases k <;> decide
  | some on => cases k <;> cases on <;> decide

theorem next_eq {k : Branch} {on : Option Condition} {i : Instruction}
    (h : i.operation = k.operation on) (hselected : i.selected = false) :
    i.next = i.address + UInt16.ofNat k.length := by
  have hlength : i.length = k.length := by
    rw [Instruction.length, h, hselected]
    cases k <;> rfl
  rw [Instruction.next, hlength]

theorem operation_cycles (k : Branch) (on : Condition) :
    (k.operation none).cycles = k.cycles ∧ (k.operation (some on)).cycles = k.conditionCycles.1 ∧
      (k.operation (some on)).untakenCycles = k.conditionCycles.2 := by
  cases k <;> exact ⟨rfl, rfl, rfl⟩

end Branch

def Registers.enabled (r : Registers) : Registers :=
  if r.imePending then { r with ime := true, imePending := false } else r

theorem Registers.enabled_pc (r : Registers) : r.enabled.pc = r.pc := by
  unfold enabled
  split <;> rfl

namespace Core

variable {σ : Type} [ExternalMemory σ] {c : Core σ} {k : Branch} {on : Condition} {i : Instruction}

def counting (c : Core σ) (n : Nat) : Core σ := { c with cpu := { c.cpu with cycles := n } }

omit [ExternalMemory σ] in
@[simp] theorem counting_registers (c : Core σ) (n : Nat) :
    (c.counting n).registers = c.registers := rfl

def go (c : Core σ) (k : Branch) (i : Instruction) : Core σ :=
  match k with
  | .relative => c.mapRegisters fun r => { r with pc := r.pc + signExtend i.first }
  | .absolute => c.jump i.wordOperand
  | .call => c.call i.wordOperand
  | .ret => c.ret

theorem execute_branch {on : Option Condition} (h : i.operation = k.operation on) :
    c.execute i = c.branch on (·.go k i) := by
  cases k <;> simp only [execute, h, Branch.operation] <;> rfl

theorem go_cycles (c : Core σ) (k : Branch) (i : Instruction) :
    (c.go k i).cpu.cycles = c.cpu.cycles := by
  cases k <;> rfl

theorem execute_taken {on : Option Condition} (h : i.operation = k.operation on)
    (htakes : c.takes on) :
    let ready := c.mapRegisters ({ · with pc := i.next })
    ready.execute i = (ready.go k i, true) := by
  intro ready
  have htakes' : ready.takes on := takes_congr (c := c) rfl ▸ htakes
  rw [execute_branch h, branch, if_pos htakes']

theorem complete_of_execute {d : Core σ} {taken : Bool}
    (h : (c.mapRegisters ({ · with pc := i.next })).execute i = (d, taken))
    (hcycles : d.cpu.cycles = c.cpu.cycles) :
    let left := d.promoteEnable c.registers.imePending
    let n := i.cycles taken
    c.complete i = (left.counting (c.cpu.cycles + n), n) := by
  have hcount := (d.promoteEnable_frame c.registers.imePending).2.trans hcycles
  intro left n
  rw [complete, h]
  dsimp only
  rw [hcount]
  rfl

theorem complete_taken {on : Option Condition} (h : i.operation = k.operation on)
    (htakes : c.takes on) :
    let left := ((c.mapRegisters ({ · with pc := i.next })).go k i).promoteEnable
      c.registers.imePending
    let n := (k.operation on).cycles
    c.complete i = (left.counting (c.cpu.cycles + n), n) := by
  have hn : i.cycles true = (k.operation on).cycles := by rw [Instruction.cycles, if_pos rfl, h]
  rw [← hn]
  exact complete_of_execute (execute_taken h htakes) (go_cycles _ k i)

omit [ExternalMemory σ] in
theorem promoteEnable_self (c : Core σ) :
    c.promoteEnable c.registers.imePending = c.mapRegisters Registers.enabled := by
  unfold promoteEnable Registers.enabled
  cases h : c.cpu.registers.imePending <;> simp [registers, mapRegisters, h]

theorem complete_untaken (h : i.operation = k.operation (some on))
    (hfails : on.holds c.registers.flags = false) :
    let registers := { c.registers with pc := i.next }.enabled
    let left : Core σ := ⟨{ c.cpu with registers }, c.bus⟩
    let n := (k.operation (some on)).untakenCycles
    c.complete i = (left.counting (c.cpu.cycles + n), n) := by
  let ready := c.mapRegisters ({ · with pc := i.next })
  have hfails' : ¬ready.takes (some on) := Bool.eq_false_iff.mp hfails
  have hn : i.cycles false = (k.operation (some on)).untakenCycles := by
    rw [Instruction.cycles, if_neg Bool.false_ne_true, h]
  have hexecute : ready.execute i = (ready, false) := by
    rw [execute_branch h, branch, if_neg hfails']
  have hpromoted : ready.promoteEnable c.registers.imePending =
      ready.mapRegisters Registers.enabled := ready.promoteEnable_self
  rw [← hn, complete_of_execute hexecute rfl, hpromoted]
  rfl

def plain (k : Branch) (i : Instruction) : Instruction :=
  { i with code := k.code none, operation := .ofCode (k.code none) }

theorem complete_plain (h : i.operation = k.operation (some on)) (hselected : i.selected = false)
    (hholds : on.holds c.registers.flags = true) :
    let n := k.conditionCycles.1
    c.complete i = ((c.complete (plain k i)).1.counting (c.cpu.cycles + n), n) := by
  have hplain : (plain k i).operation = k.operation none := k.ofCode_code none
  have hnext : (plain k i).next = i.next :=
    (Branch.next_eq hplain hselected).trans (Branch.next_eq h hselected).symm
  have hgo (d : Core σ) : d.go k (plain k i) = d.go k i := by cases k <;> rfl
  have hgone := complete_taken (c := c) hplain rfl
  rw [hnext, hgo] at hgone
  have hdone := complete_taken (c := c) h hholds
  rw [(k.operation_cycles on).2.1] at hdone
  rw [hgone, hdone]
  rfl

structure Executing (c : Core σ) : Prop where
  locked : c.cpu.locked = false
  halted : c.cpu.halted = false
  stopped : c.cpu.stopped = false
  dispatches : c.dispatchable? = none

theorem Executing.step_eq (h : c.Executing) : c.step = c.fetch.2.complete c.fetch.1 := by
  have hactivity := (activity_of_running h.locked h.halted h.stopped h.dispatches).1
  rw [step_eq_complete hactivity, awake_of_running h.halted h.stopped]

/-- Where its condition holds, a branch leaves what the one without a condition and with the same
operands leaves, but for the count of cycles. Where it does not, what the fetch leaves is left with
the program counter behind the instruction. Of two opposite conditions exactly one holds. -/
theorem conditional_branch (h : c.Executing)
    (hcode : (c.bus.read c.registers.pc).1 = k.code (some on)) :
    let fetched := c.fetch.2
    let unconditional := fetched.complete (plain k c.fetch.1)
    let cycles := k.conditionCycles
    unconditional.2 = k.cycles ∧
    (on.holds c.registers.flags = true →
      c.step = (unconditional.1.counting (c.cpu.cycles + cycles.1), cycles.1)) ∧
    (on.holds c.registers.flags = false →
      let next := c.registers.pc + UInt16.ofNat k.length
      let registers := { c.registers with pc := next }.enabled
      let left : Core σ := ⟨{ c.cpu with registers }, fetched.bus⟩
      c.step = (left.counting (c.cpu.cycles + cycles.2), cycles.2)) ∧
    on.opposite.holds c.registers.flags = !on.holds c.registers.flags := by
  obtain ⟨hselected, -, hoperation⟩ := fetch_head hcode (k.code_ne_selector (some on))
  rw [k.ofCode_code] at hoperation
  obtain ⟨hplain, -, huntaken⟩ := k.operation_cycles on
  refine ⟨?_, fun hholds => ?_, fun hfails => ?_, on.opposite_holds _⟩
  · have hgone := complete_taken (c := c.fetch.2) (i := plain k c.fetch.1) (k.ofCode_code none) rfl
    exact (congrArg Prod.snd hgone).trans hplain
  · exact h.step_eq.trans (complete_plain hoperation hselected hholds)
  · have hdone := complete_untaken (c := c.fetch.2) hoperation hfails
    rw [huntaken, Branch.next_eq hoperation hselected, c.fetch_leads.1] at hdone
    exact h.step_eq.trans hdone

theorem jump_on_zero :
    let c := (Machine.programmed [0x28, 0xFE]).core
    let d := (Machine.programmed [0x20, 0xFE]).core
    c.Executing ∧ d.Executing ∧ c.step.1.registers.pc = 0x0100 ∧ c.step.2 = 12 ∧
      d.step.1.registers.pc = 0x0102 ∧ d.step.2 = 8 := by
  intro c d
  have hexecuting : c.Executing :=
    ⟨by decide +kernel, by decide +kernel, by decide +kernel, by decide +kernel⟩
  have hexecuting' : d.Executing :=
    ⟨by decide +kernel, by decide +kernel, by decide +kernel, by decide +kernel⟩
  have hcode : (c.bus.read c.registers.pc).1 = Branch.code .relative (some .zero) := by
    decide +kernel
  have hcode' : (d.bus.read d.registers.pc).1 = Branch.code .relative (some .nonzero) := by
    decide +kernel
  have hplain : (c.fetch.2.complete (plain .relative c.fetch.1)).1.registers.pc = 0x0100 := by
    decide +kernel
  have hzero : Condition.zero.holds c.registers.flags = true := by decide +kernel
  have hzero' : Condition.nonzero.holds d.registers.flags = false := by decide +kernel
  have hpc : d.registers.pc = 0x0100 := by decide +kernel
  clear_value c d
  obtain ⟨-, htaken, -, -⟩ := conditional_branch hexecuting hcode
  obtain ⟨-, -, hpassed, -⟩ := conditional_branch hexecuting' hcode'
  have hstep := htaken hzero
  have hstep' := hpassed hzero'
  refine ⟨hexecuting, hexecuting', ?_, congrArg Prod.snd hstep, ?_, congrArg Prod.snd hstep'⟩
  · rw [hstep, counting_registers]
    exact hplain
  · have hnext := Registers.enabled_pc
      { d.registers with pc := d.registers.pc + UInt16.ofNat Branch.relative.length }
    exact (congrArg (fun s => s.1.registers.pc) hstep').trans (hnext.trans (by rw [hpc]))

end Core
end Handheld
