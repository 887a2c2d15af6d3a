import Handheld.Proofs.Cpu.Activity
import Handheld.Proofs.Machine.Runs

/-!
The machines that come of a fresh one by its steps and those of its processor alone, whatever the
host and the units do to the bus between them.
-/

namespace Handheld.Machine

variable {σ : Type} [ExternalMemory σ]

inductive Reachable : Machine σ → Prop where
  | start {m : Machine σ} (h : m.Started) : Reachable m
  | step {m : Machine σ} (h : Reachable m) : Reachable m.step.1
  | processorStep {m : Machine σ} (h : Reachable m) : Reachable { m with core := m.core.step.1 }
  | perform {m : Machine σ} (h : Reachable m) (e : Bus.Event) : Reachable (m.mapBus (·.perform e))

omit [ExternalMemory σ] in
theorem Started.control {m : Machine σ} (h : m.Started) :
    m.cpu.control = ⟨false, false, false, false, false⟩ := by
  have hboot : ∀ model, (Cpu.postBoot model).control = ⟨false, false, false, false, false⟩ := by
    intro model
    cases model <;> rfl
  cases h with
  | create cartridge settings => exact hboot _
  | reset m => exact hboot _

theorem step_cpu (m : Machine σ) : m.step.1.cpu = m.core.step.1.cpu := by
  rcases m.step_cases with ⟨-, hstep⟩ | ⟨-, hstep⟩ <;> rw [hstep] <;> rfl

theorem Reachable.control_sound {m : Machine σ} (h : m.Reachable) : m.cpu.control.Sound := by
  induction h with
  | start h =>
    rw [h.control]
    exact ⟨by simp, by simp⟩
  | step h ih =>
    rw [step_cpu]
    exact Core.step_control_sound ih
  | processorStep h ih => exact Core.step_control_sound ih
  | perform h e ih => exact ih

/-- A console in color with a program at its start and no memory in the cartridge. -/
def programmed (code : List UInt8) : Machine VolatileRam :=
  create { Bus.bare.cartridge with rom := ⟨(List.replicate 0x100 0 ++ code).toArray⟩ } {}

def processorSteps (m : Machine σ) : Nat → Machine σ
  | 0 => m
  | n + 1 => { m.processorSteps n with core := (m.processorSteps n).core.step.1 }

theorem Reachable.processorSteps {m : Machine σ} (h : m.Reachable) (n : Nat) :
    (m.processorSteps n).Reachable := by
  induction n with
  | zero => exact h
  | succ n ih => exact ih.processorStep

theorem programmed_reachable (code : List UInt8) (n : Nat) :
    ((programmed code).processorSteps n).Reachable :=
  (Reachable.start (.create _ _)).processorSteps n

end Handheld.Machine
