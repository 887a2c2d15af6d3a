import Handheld.Proofs.Cpu.Dispatch
import Handheld.Proofs.Cpu.Fetch
import Handheld.Proofs.Machine.Frames
import Handheld.Proofs.Machine.Requests

/-!
The processor halted. It stands behind the HALT that it executed, and nothing but the units and the
count of its cycles goes on until an enabled interrupt is requested. That very step leads to the
routine of the interrupt, or where interrupts are disabled to the instruction behind HALT.
-/

namespace Handheld

theorem Operation.ofSelected_ne_halt (code : UInt8) : ofSelected code ≠ .halt := by
  unfold ofSelected
  dsimp only
  split <;> simp

theorem Control.after_halted (s : Control) (switches wasPending : Bool) {op : Operation}
    (h : op ≠ .halt) : ((s.after switches op).promote wasPending).halted = s.halted := by
  have hafter : (s.after switches op).halted = s.halted := by
    unfold after
    split
    case h_1 => split <;> rfl
    case h_4 => exact absurd rfl h
    case h_5 => split <;> rfl
    all_goals rfl
  rw [← hafter, promote]
  split <;> rfl

theorem Control.Sound.not_stopped {s : Control} (h : s.Sound) (hhalted : s.halted) :
    s.stopped = false := by
  cases hstopped : s.stopped with
  | false => rfl
  | true =>
    rw [(h.stopped hstopped).1] at hhalted
    cases hhalted

namespace Core

variable {σ : Type} [ExternalMemory σ] {c : Core σ}

theorem fetch_halt_next (h : c.fetch.1.operation = .halt) :
    c.fetch.1.next = c.fetch.1.address + 1 := by
  have hsingle : c.fetch.1.selected = false := by
    by_contra hselected
    have hoperation := c.fetch_operation
    rw [if_pos (by simpa using hselected), h] at hoperation
    exact Operation.ofSelected_ne_halt _ hoperation.symm
  have hlength : c.fetch.1.length = 1 := by
    rw [Instruction.length, hsingle, h]
    rfl
  rw [Instruction.next, hlength]
  rfl

omit [ExternalMemory σ] in
theorem promoteEnable_pc (c : Core σ) (wasPending : Bool) :
    (c.promoteEnable wasPending).cpu.registers.pc = c.cpu.registers.pc := by
  unfold promoteEnable
  split <;> rfl

theorem runInstruction_pc (c : Core σ) : c.runInstruction.1.cpu.registers.pc =
    (c.fetched.execute c.fetch.1).1.cpu.registers.pc := promoteEnable_pc _ _

theorem step_halt_pc {i : Instruction} (h : c.activity = .execute i) (hop : i.operation = .halt) :
    c.step.1.cpu.registers.pc = i.address + 1 := by
  obtain ⟨-, -, -, rfl⟩ := of_activity_execute h
  have hexecute : (c.awake.fetched.execute c.awake.fetch.1).1.cpu.registers.pc =
      c.awake.fetch.1.next := by
    simp only [execute, hop]
    rfl
  have hstep : c.step.1.cpu.registers.pc = c.stepUncounted.1.cpu.registers.pc := rfl
  rw [stepUncounted_eq, h] at hstep
  rw [hstep, ← fetch_halt_next hop, ← hexecute]
  exact runInstruction_pc _

/-- The processor waits behind a HALT that it executed, and only its cycles were counted since. -/
structure HaltedBy (c : Core σ) (i : Instruction) (cpu : Cpu) : Prop where
  executed : c.activity = .execute i
  halt : i.operation = .halt
  cpu : ∃ cycles, cpu = { c.step.1.cpu with cycles }

theorem HaltedBy.pc {i : Instruction} {cpu : Cpu} (h : c.HaltedBy i cpu) :
    cpu.registers.pc = i.address + 1 := by
  obtain ⟨cycles, hcpu⟩ := h.cpu
  rw [hcpu]
  exact step_halt_pc h.executed h.halt

omit [ExternalMemory σ] in
theorem awake_of_halted (hsound : c.cpu.control.Sound) (h : c.awake.cpu.halted) : c.awake = c := by
  have hkept : c.awake.cpu.halted = c.wakeFromHalt.cpu.halted :=
    congrArg Control.halted c.wakeFromHalt.wakeFromStop_control
  rw [hkept] at h
  have hhalted : c.cpu.halted = true := wakeFromHalt_halted h
  have hhalt : c.wakeFromHalt = c := by
    unfold wakeFromHalt at h ⊢
    split at h
    case isTrue => cases h
    case isFalse hasleep => exact if_neg hasleep
  have hstopped : c.cpu.stopped = false := hsound.not_stopped hhalted
  rw [awake, hhalt]
  simp [wakeFromStop, hstopped]

/-- Where a step leaves the processor halted it either was before, and the step did nothing, or has
executed HALT. -/
theorem step_halted (hsound : c.cpu.control.Sound) (h : c.step.1.cpu.halted) :
    (c.cpu.halted ∧ ∃ cycles, c.step.1.cpu = { c.cpu with cycles }) ∨
      ∃ i, c.activity = .execute i ∧ i.operation = .halt := by
  have hhalted : c.stepUncounted.1.cpu.halted := h
  have huncounted := c.stepUncounted_eq
  cases hactivity : c.activity with
  | rest =>
    rw [hactivity] at huncounted
    have hsame : c.stepUncounted.1 = c := by
      rw [huncounted] at hhalted ⊢
      dsimp only at hhalted ⊢
      split
      case isTrue => rfl
      case isFalse hlocked =>
        rw [if_neg hlocked] at hhalted
        exact awake_of_halted hsound hhalted
    rw [hsame] at hhalted
    refine .inl ⟨hhalted, c.stepUncounted.1.cpu.cycles + c.stepUncounted.2, ?_⟩
    have hstep : c.step.1.cpu = { c.stepUncounted.1.cpu with
      cycles := c.stepUncounted.1.cpu.cycles + c.stepUncounted.2 } := rfl
    rw [hstep, hsame]
  | dispatch irq =>
    rw [hactivity] at huncounted
    rw [huncounted] at hhalted
    cases hhalted
  | execute i =>
    obtain ⟨-, -, hawake, hi⟩ := of_activity_execute hactivity
    obtain ⟨switches, hrun⟩ := c.awake.runInstruction_control
    refine .inr ⟨i, rfl, ?_⟩
    by_contra hother
    rw [hactivity] at huncounted
    rw [huncounted] at hhalted
    have hkept : c.awake.runInstruction.1.cpu.halted = c.awake.cpu.halted := by
      have hafter := congrArg Control.halted hrun
      rwa [hi, Control.after_halted _ _ _ hother] at hafter
    rw [hkept, hawake] at hhalted
    cases hhalted

structure Halted (cpu : Cpu) : Prop where
  halted : cpu.halted = true
  stopped : cpu.stopped = false
  locked : cpu.locked = false

theorem HaltedBy.halted {i : Instruction} {cpu : Cpu} (h : c.HaltedBy i cpu)
    (hsound : cpu.control.Sound) (hhalted : cpu.halted) : Halted cpu where
  halted := hhalted
  stopped := hsound.not_stopped hhalted
  locked := by
    obtain ⟨hlocked, -, -, hi⟩ := of_activity_execute h.executed
    obtain ⟨switches, hrun⟩ := c.awake.runInstruction_control
    have hlegal : ∀ code, c.awake.fetch.1.operation ≠ .illegal code := by simp [hi, h.halt]
    have hawake : c.awake.cpu.locked = false :=
      (congrArg Control.locked c.awake_control).trans hlocked
    have hkept : c.awake.runInstruction.1.cpu.locked = c.awake.cpu.locked :=
      (congrArg Control.locked hrun).trans (Control.after_locked _ _ _ hlegal)
    have hstep : c.step.1.cpu.locked = c.stepUncounted.1.cpu.locked := rfl
    rw [stepUncounted_eq, h.executed] at hstep
    obtain ⟨cycles, hcpu⟩ := h.cpu
    rw [hcpu]
    exact hstep.trans (hkept.trans hawake)

def resumed (c : Core σ) : Core σ := { c with cpu := { c.cpu with halted := false } }

end Core

namespace Machine

variable {σ : Type} [ExternalMemory σ] {m : Machine σ}

/-- Some reachable machine has executed a HALT behind which the processor waits. -/
def HaltExecuted (σ : Type) [ExternalMemory σ] (cpu : Cpu) : Prop :=
  ∃ before : Machine σ, before.Reachable ∧ ∃ i, before.core.HaltedBy i cpu

theorem HaltExecuted.step (h : m.Reachable) (hbefore : m.cpu.halted → HaltExecuted σ m.cpu)
    (hhalted : m.core.step.1.cpu.halted) : HaltExecuted σ m.core.step.1.cpu := by
  rcases Core.step_halted h.control_sound hhalted with ⟨hwaits, cycles, hcpu⟩ | ⟨i, hi, hop⟩
  · obtain ⟨before, hreachable, i, hexecuted, hop, earlier, hearlier⟩ := hbefore hwaits
    have hsame : m.core.cpu = _ := hearlier
    exact ⟨before, hreachable, i, hexecuted, hop, cycles, by rw [hcpu, hsame]⟩
  · exact ⟨m, h, i, hi, hop, m.core.step.1.cpu.cycles, rfl⟩

theorem Reachable.haltExecuted (h : m.Reachable) (hhalted : m.cpu.halted) :
    HaltExecuted σ m.cpu := by
  induction h with
  | @start m h =>
    have hnot : m.cpu.halted = false := congrArg Control.halted h.control
    rw [hhalted] at hnot
    cases hnot
  | step h ih =>
    rw [step_cpu] at hhalted ⊢
    exact .step h ih hhalted
  | processorStep h ih => exact .step h ih hhalted
  | perform h e ih => exact ih hhalted

theorem Reachable.halted (h : m.Reachable) (hhalted : m.cpu.halted) : Core.Halted m.cpu := by
  obtain ⟨before, -, i, hby⟩ := h.haltExecuted hhalted
  exact hby.halted h.control_sound hhalted

end Machine
end Handheld
