import Handheld.Proofs.Cpu.Dispatch
import Handheld.Proofs.Machine.Reachable

/-!
The enable of interrupts that EI asks for. It waits for one instruction, which no interrupt keeps
from being executed, and is in effect after it.
-/

namespace Handheld

namespace Core

variable {σ : Type} [ExternalMemory σ]

theorem control_of_enable {c : Core σ} {i : Instruction} (h : c.activity = .execute i)
    (hop : i.operation = .enableInterrupts) (hime : c.cpu.registers.ime = false)
    (hpending : c.cpu.registers.imePending = false) :
    c.step.1.cpu.control = ⟨false, true, false, false, false⟩ := by
  have hstep : c.step.1.cpu.control = c.stepUncounted.1.cpu.control := rfl
  obtain ⟨hlocked, hstopped, hhalted, hi⟩ := of_activity_execute h
  obtain ⟨switches, hrun⟩ := c.awake.runInstruction_control
  have hawake : c.awake.cpu.control = ⟨false, false, false, false, false⟩ := by
    rw [awake_control, hhalted, hstopped]
    simp [Cpu.control, hime, hpending, hlocked]
  rw [hi, hop, hawake] at hrun
  rw [hstep, stepUncounted_eq, h]
  exact hrun

end Core

namespace Machine

variable {σ : Type} [ExternalMemory σ]

/-- The enable waits only while interrupts are disabled and the processor executes. So whatever is
requested, the instruction after EI is executed and interrupts are enabled after it, unless it is
DI; and unless that instruction locks the processor, a request is dispatched next. -/
theorem enable_waits_one_instruction {m : Machine σ} (h : m.Reachable) :
    (m.cpu.registers.imePending → m.cpu.registers.ime = false ∧ m.cpu.halted = false ∧
      m.cpu.stopped = false ∧ m.cpu.locked = false) ∧
    ∀ i, m.core.activity = .execute i → i.operation = .enableInterrupts →
      m.cpu.registers.ime = false → m.cpu.registers.imePending = false →
      ∀ b : Bus σ,
        let next : Core σ := ⟨m.core.step.1.cpu, b⟩
        let op := next.fetch.1.operation
        let later := next.step.1.cpu
        next.activity = .execute next.fetch.1 ∧ next.stepUncounted = next.runInstruction ∧
          later.registers.imePending = false ∧
          (later.registers.ime = true ↔ op ≠ .disableInterrupts) ∧
          (op ≠ .disableInterrupts → (∀ code, op ≠ .illegal code) →
            ∀ b' : Bus σ, b'.interrupts.pending ≠ 0 → ∃ irq,
              b'.interrupts.highestPending? = some irq ∧
              Core.activity ⟨later, b'⟩ = .dispatch irq ∧
              Core.step ⟨later, b'⟩ = (Core.dispatched ⟨later, b'⟩ irq, 20)) := by
  refine ⟨h.control_sound.pending, fun i hi hop hime hpending b => ?_⟩
  intro next op later
  have hcontrol : next.cpu.control = ⟨false, true, false, false, false⟩ :=
    Core.control_of_enable hi hop hime hpending
  have hsound : next.cpu.control.Sound := by
    rw [hcontrol]
    exact ⟨fun _ => ⟨rfl, rfl, rfl, rfl⟩, by simp⟩
  have hwaits : next.cpu.control.imePending = true := by rw [hcontrol]
  obtain ⟨hime', hhalted, hstopped, hlocked⟩ := hsound.pending hwaits
  obtain ⟨hactivity, hrun⟩ := Core.activity_of_running hlocked hhalted hstopped
    (if_neg (Bool.eq_false_iff.mp hime'))
  obtain ⟨switches, hafter⟩ := next.runInstruction_control
  have hlater : later.control = (next.cpu.control.after switches op).promote
      next.cpu.control.imePending := by
    rw [← hafter, ← hrun]
    rfl
  obtain ⟨hdone, henabled⟩ := hsound.after_pending hwaits switches op
  rw [← hlater] at hdone henabled
  refine ⟨hactivity, hrun, hdone, henabled, fun hdisable hillegal b' hb' => ?_⟩
  obtain ⟨irq, hirq⟩ := Interrupts.exists_highestPending hb'
  have hrunning : later.control.locked = false := by
    rw [hlater, Control.after_locked _ _ _ hillegal]
    exact hlocked
  have hserved : Core.activity ⟨later, b'⟩ = .dispatch irq :=
    Core.activity_eq_dispatch.mpr ⟨hrunning, henabled.mpr hdisable, hirq⟩
  exact ⟨irq, hirq, hserved, Core.step_dispatch hserved⟩

theorem enable_waits_for_nop :
    let m := (programmed [0x3E, 0x01, 0xE0, 0xFF, 0xFB, 0x00]).processorSteps 2
    let next := m.core.step.1
    m.Reachable ∧ m.core.activity = .execute ⟨0x0104, .enableInterrupts, 0xFB, false, 0, 0⟩ ∧
      m.cpu.registers.ime = false ∧ m.cpu.registers.imePending = false ∧
      next.bus.interrupts.pending ≠ 0 ∧ next.fetch.1.operation = .nop ∧
      next.activity = .execute next.fetch.1 ∧ next.step.1.cpu.registers.ime = true ∧
      next.step.1.activity = .dispatch .vblank ∧
      next.step.1.step = (next.step.1.dispatched .vblank, 20) ∧
      next.step.1.step.1.cpu.registers.pc = 0x40 := by
  intro m next
  have hreachable : m.Reachable := programmed_reachable _ _
  have hactivity : m.core.activity = .execute ⟨0x0104, .enableInterrupts, 0xFB, false, 0, 0⟩ := by
    decide +kernel
  have hime : m.cpu.registers.ime = false := by decide +kernel
  have hpending : m.cpu.registers.imePending = false := by decide +kernel
  have hnop : next.fetch.1.operation = .nop := by decide +kernel
  have hwaiting : next.bus.interrupts.pending ≠ 0 := by decide +kernel
  have hrequest : next.step.1.bus.interrupts.highestPending? = some .vblank := by decide +kernel
  have hpresent : next.step.1.bus.interrupts.pending ≠ 0 := by decide +kernel
  clear_value m
  obtain ⟨hnext, -, -, henabled, hdispatch⟩ :=
    (enable_waits_one_instruction hreachable).2 _ hactivity rfl hime hpending next.bus
  have hdisable : next.fetch.1.operation ≠ .disableInterrupts := by simp [hnop]
  have hlegal : ∀ code, next.fetch.1.operation ≠ .illegal code := by simp [hnop]
  obtain ⟨irq, hirq, hserved, hstep⟩ := hdispatch hdisable hlegal next.step.1.bus hpresent
  obtain rfl : .vblank = irq := Option.some.inj (hrequest.symm.trans hirq)
  exact ⟨hreachable, hactivity, hime, hpending, hwaiting, hnop, hnext,
    henabled.mpr hdisable, hserved, hstep, congrArg (fun s => s.1.cpu.registers.pc) hstep⟩

/-- An EI on which another follows does not wait again, and an instruction that does not exist keeps
the processor from dispatching anything. -/
theorem enable_not_always_waited :
    let second := (programmed [0x3E, 0x01, 0xE0, 0xFF, 0xFB, 0xFB, 0x00]).processorSteps 3
    let m := (programmed [0x3E, 0x01, 0xE0, 0xFF, 0xFB, 0xD3]).processorSteps 2
    let later := m.core.step.1.step.1
    (second.Reachable ∧
      second.core.activity = .execute ⟨0x0105, .enableInterrupts, 0xFB, false, 0, 0⟩ ∧
      second.cpu.registers.ime = false ∧ second.core.step.1.activity = .dispatch .vblank) ∧
    m.Reachable ∧ m.core.activity = .execute ⟨0x0104, .enableInterrupts, 0xFB, false, 0, 0⟩ ∧
      m.cpu.registers.ime = false ∧
      m.core.step.1.activity = .execute ⟨0x0105, .illegal 0xD3, 0xD3, false, 0, 0⟩ ∧
      later.cpu.registers.ime = true ∧ later.bus.interrupts.pending ≠ 0 ∧
      later.activity = .rest := by
  intro second m later
  refine ⟨⟨programmed_reachable _ _, ?_⟩, programmed_reachable _ _, ?_⟩
  · decide +kernel
  · decide +kernel

end Machine
end Handheld
