import Handheld.Machine
import Handheld.Proofs.Bus.Reachable
import Handheld.Proofs.Cpu.Accesses

/-!
Runs of a machine, step after step, with whatever buttons the host holds. On the bus a step is the
accesses of the processor, then its unit cycles, and at the end of a frame the sound unit and the
buttons.
-/

namespace Handheld.Machine

variable {σ : Type} [ExternalMemory σ]

inductive Started : Machine σ → Prop where
  | create (cartridge : Cartridge σ) (settings : MachineSettings) :
      Started (create cartridge settings)
  | reset (m : Machine σ) : Started m.reset

def hold (m : Machine σ) (buttons : Buttons) : Machine σ :=
  m.mapBus fun b => { b with held := buttons }

structure Transition (σ : Type) where
  before : Machine σ
  after : Machine σ
  info : StepInfo

namespace Transition

def units (t : Transition σ) : Nat := t.info.cycles / t.before.bus.speed.divisor

/-- The cycles that the sound unit owes when those of the step are added. -/
def owed (t : Transition σ) : Nat := t.before.soundCycles + t.units

/-- On the bus the step lets its unit cycles pass and nothing else, after the accesses of the
processor and before the sound unit catches up at the end of a frame. -/
def Clocks (t : Transition σ) : Prop :=
  ∃ accesses : List Bus.Event, (∀ e ∈ accesses, e.ofProcessor) ∧
    t.after.bus = t.before.bus.performAll (accesses ++ List.replicate t.units .cycle ++
      if t.info.frameComplete then [.renderSound t.owed, .sampleButtons] else [])

end Transition

def transitions (m : Machine σ) : List Buttons → List (Transition σ)
  | [] => []
  | buttons :: rest =>
    let before := m.hold buttons
    ⟨before, before.step.1, before.step.2⟩ :: before.step.1.transitions rest

def runHolding (m : Machine σ) : List Buttons → Machine σ
  | [] => m
  | buttons :: rest => (m.hold buttons).step.1.runHolding rest

theorem runCycles_eq (n : Nat) (b : Bus σ) :
    b.runCycles n = b.performAll (List.replicate n .cycle) := by
  induction n generalizing b with
  | zero => rfl
  | succ n ih => exact ih b.cycle

theorem step_cases (m : Machine σ) :
    let cycles := m.core.step.2
    let units := cycles / m.bus.speed.divisor
    let clocked := m.core.step.1.bus.performAll (List.replicate units .cycle)
    (m.bus.speed.frameBudget ≤ m.frameCycles + cycles ∧
      m.step = ({ m with
          core := ⟨m.core.step.1.cpu, finishFrame (m.soundCycles + units) clocked⟩
          frameCycles := m.frameCycles + cycles - m.bus.speed.frameBudget
          soundCycles := 0
          frames := m.frames + 1 }, ⟨cycles, true⟩)) ∨
    (m.frameCycles + cycles < m.bus.speed.frameBudget ∧
      m.step = ({ m with
          core := ⟨m.core.step.1.cpu, clocked⟩
          frameCycles := m.frameCycles + cycles
          soundCycles := m.soundCycles + units }, ⟨cycles, false⟩)) := by
  intro cycles units clocked
  have hclocked : m.core.step.1.bus.runCycles units = clocked := runCycles_eq _ _
  by_cases hfull : m.bus.speed.frameBudget ≤ m.frameCycles + cycles
  · refine .inl ⟨hfull, ?_⟩
    rw [← hclocked]
    exact if_pos hfull
  · refine .inr ⟨Nat.lt_of_not_le hfull, ?_⟩
    rw [← hclocked]
    exact if_neg hfull

/-- What a step does to the bus, from the processor's accesses to the end of the frame. -/
def stepEvents (m : Machine σ) : List Bus.Event :=
  let units := m.step.2.cycles / m.bus.speed.divisor
  m.core.stepAccesses ++ List.replicate units .cycle ++
    if m.step.2.frameComplete then [.renderSound (m.soundCycles + units), .sampleButtons] else []

theorem step_bus (m : Machine σ) : m.step.1.bus = m.bus.performAll m.stepEvents := by
  have hbus : m.bus.performAll m.core.stepAccesses = m.core.step.1.bus := m.core.step_accessed.1
  unfold stepEvents
  rcases m.step_cases with ⟨-, hstep⟩ | ⟨-, hstep⟩
  · rw [hstep, Bus.performAll_append, Bus.performAll_append, hbus]
    rfl
  · rw [hstep, Bus.performAll_append, Bus.performAll_append, hbus]
    rfl

theorem step_clocks (m : Machine σ) : Transition.Clocks ⟨m, m.step.1, m.step.2⟩ :=
  ⟨m.core.stepAccesses, m.core.step_accessed.2.1, m.step_bus⟩

theorem step_cycles (m : Machine σ) : m.step.2.cycles ∈ Core.stepCycles ∧
    m.step.1.cpu.cycles = m.cpu.cycles + m.step.2.cycles := by
  obtain ⟨-, -, hcycles, hmem⟩ := m.core.step_accessed
  rcases m.step_cases with ⟨-, hstep⟩ | ⟨-, hstep⟩
  · rw [hstep]
    exact ⟨hmem, hcycles⟩
  · rw [hstep]
    exact ⟨hmem, hcycles⟩

theorem Transition.Clocks.reachable {t : Transition σ} (h : t.Clocks)
    (hbus : t.before.bus.Reachable) : t.after.bus.Reachable := by
  obtain ⟨accesses, -, hafter⟩ := h
  rw [hafter]
  exact hbus.performAll _

omit [ExternalMemory σ] in
theorem applyShades_fresh {b : Bus σ} (h : b.Fresh) (s : MachineSettings) :
    (applyShades b s).Fresh := by
  unfold applyShades
  split
  · exact ⟨h.display, h.transfer⟩
  · exact h

omit [ExternalMemory σ] in
theorem Started.fresh {m : Machine σ} (h : m.Started) : m.bus.Fresh := by
  cases h with
  | create cartridge settings => exact applyShades_fresh ⟨fun _ => rfl, rfl⟩ settings
  | reset m => exact applyShades_fresh ⟨fun _ => rfl, rfl⟩ m.settings

theorem runHolding_reachable {m : Machine σ} (h : m.bus.Reachable) (inputs : List Buttons) :
    (m.runHolding inputs).bus.Reachable := by
  induction inputs generalizing m with
  | nil => exact h
  | cons buttons rest ih =>
    have hheld : (m.hold buttons).bus.Reachable := h.performAll [.hold buttons]
    exact ih ((step_clocks _).reachable hheld)

theorem Started.reachable {m : Machine σ} (h : m.Started) (inputs : List Buttons) :
    (m.runHolding inputs).bus.Reachable := runHolding_reachable h.fresh.reachable inputs

end Handheld.Machine
