import Handheld.Proofs.Cpu.Control

/-!
What a step of the processor comes to: nothing, the dispatch of an interrupt, or one instruction. No
run of steps brings two of its switches into each other's way.
-/

namespace Handheld

inductive Activity where
  | rest
  | dispatch (irq : Interrupt)
  | execute (i : Instruction)
  deriving DecidableEq, Repr

namespace Control

/-- Interrupts wait to be enabled only while they are disabled and the processor executes, and it
waits in one way at most. -/
structure Sound (s : Control) : Prop where
  pending : s.imePending → s.ime = false ∧ s.halted = false ∧ s.stopped = false ∧ s.locked = false
  stopped : s.stopped → s.halted = false ∧ s.locked = false

theorem Sound.wake {s t : Control} (h : s.Sound) (hime : t.ime = s.ime)
    (hpending : t.imePending = s.imePending) (hlocked : t.locked = s.locked)
    (hhalted : t.halted → s.halted) (hstopped : t.stopped → s.stopped) : t.Sound := by
  obtain ⟨ime, imePending, halted, stopped, locked⟩ := s
  obtain ⟨ime', imePending', halted', stopped', locked'⟩ := t
  subst hime hpending hlocked
  refine ⟨fun hp => ?_, fun hs => ?_⟩
  · have hwaits := h.pending hp
    simp_all
  · have hwaits := h.stopped (hstopped hs)
    simp_all

theorem Sound.dispatch {s : Control} (h : s.Sound) (hime : s.ime) :
    ({ s with ime := false, halted := false } : Control).Sound := by
  have hpending : s.imePending = false := by
    cases hp : s.imePending
    · rfl
    · simp [(h.pending hp).1] at hime
  refine ⟨fun hp => ?_, fun hs => ⟨rfl, (h.stopped hs).2⟩⟩
  simp [hpending] at hp

theorem Sound.execute {s : Control} (h : s.Sound) (hhalted : s.halted = false)
    (hstopped : s.stopped = false) (hlocked : s.locked = false) (switches : Bool)
    (op : Operation) : ((s.after switches op).promote s.imePending).Sound := by
  obtain ⟨ime, imePending, halted, stopped, locked⟩ := s
  obtain ⟨hpending, -⟩ := h
  unfold after
  split <;> cases ime <;> cases imePending <;> cases switches <;>
    constructor <;> simp_all [promote, enable, disable]

theorem Sound.after_pending {s : Control} (h : s.Sound) (hpending : s.imePending)
    (switches : Bool) (op : Operation) :
    ((s.after switches op).promote s.imePending).imePending = false ∧
      (((s.after switches op).promote s.imePending).ime = true ↔ op ≠ .disableInterrupts) := by
  have hime := (h.pending hpending).1
  cases op <;> cases switches <;> simp [after, promote, enable, disable, hpending, hime]

theorem after_locked (s : Control) (switches wasPending : Bool) {op : Operation}
    (h : ∀ code, op ≠ .illegal code) :
    ((s.after switches op).promote wasPending).locked = s.locked := by
  have hafter : (s.after switches op).locked = s.locked := by
    unfold after
    split
    case h_1 => split <;> rfl
    case h_5 => split <;> rfl
    case h_6 code => exact absurd rfl (h code)
    all_goals rfl
  rw [← hafter, promote]
  split <;> rfl

end Control

namespace Core

variable {σ : Type} [ExternalMemory σ]

def awake (c : Core σ) : Core σ := c.wakeFromHalt.wakeFromStop

/-- What the next step comes to. -/
def activity (c : Core σ) : Activity :=
  if c.cpu.locked then .rest
  else
    match c.dispatchable? with
    | some irq => .dispatch irq
    | none =>
      if c.awake.cpu.stopped || c.awake.cpu.halted then .rest else .execute c.awake.fetch.1

omit [ExternalMemory σ] in
theorem wakeFromHalt_dispatchable? (c : Core σ) :
    c.wakeFromHalt.dispatchable? = c.dispatchable? := by
  unfold wakeFromHalt
  split <;> rfl

theorem stepUncounted_eq (c : Core σ) : c.stepUncounted =
    match c.activity with
    | .rest => (if c.cpu.locked then c else c.awake, idleCycles)
    | .dispatch irq => (c.wakeFromHalt.dispatch irq, dispatchCycles)
    | .execute _ => c.awake.runInstruction := by
  unfold stepUncounted activity
  cases hlocked : c.cpu.locked
  · simp only [wakeFromHalt_dispatchable?, Bool.false_eq_true, if_false]
    cases c.dispatchable? with
    | some irq => rfl
    | none =>
      by_cases hwaits : (c.awake.cpu.stopped || c.awake.cpu.halted) = true
      · have hwaits' := hwaits
        simp only [awake] at hwaits'
        simp only [hwaits, hwaits', if_true]
        rfl
      · have hwaits' := hwaits
        simp only [awake] at hwaits'
        simp only [if_neg hwaits, if_neg hwaits']
        rfl
  · rfl

theorem activity_eq_dispatch {c : Core σ} {irq : Interrupt} : c.activity = .dispatch irq ↔
    c.cpu.locked = false ∧ c.cpu.registers.ime = true ∧
      c.bus.interrupts.highestPending? = some irq := by
  have hdispatchable : c.dispatchable? =
      if c.cpu.registers.ime then c.bus.interrupts.highestPending? else none := rfl
  unfold activity
  rw [hdispatchable]
  cases c.cpu.locked <;> cases c.cpu.registers.ime <;>
    cases c.bus.interrupts.highestPending? <;> simp
  all_goals split <;> simp

theorem of_activity_execute {c : Core σ} {i : Instruction} (h : c.activity = .execute i) :
    c.cpu.locked = false ∧ c.awake.cpu.stopped = false ∧ c.awake.cpu.halted = false ∧
      c.awake.fetch.1 = i := by
  unfold activity at h
  split at h
  · cases h
  split at h
  · cases h
  split at h
  · cases h
  · simp_all

omit [ExternalMemory σ] in
theorem awake_of_running {c : Core σ} (hhalted : c.cpu.halted = false)
    (hstopped : c.cpu.stopped = false) : c.awake = c := by
  have hhalt : c.wakeFromHalt = c := by simp [wakeFromHalt, hhalted]
  rw [awake, hhalt]
  simp [wakeFromStop, hstopped]

theorem activity_of_running {c : Core σ} (hlocked : c.cpu.locked = false)
    (hhalted : c.cpu.halted = false) (hstopped : c.cpu.stopped = false)
    (hnone : c.dispatchable? = none) :
    c.activity = .execute c.fetch.1 ∧ c.stepUncounted = c.runInstruction := by
  have hactivity : c.activity = .execute c.fetch.1 := by
    simp [activity, hlocked, hnone, awake_of_running hhalted hstopped, hhalted, hstopped]
  refine ⟨hactivity, ?_⟩
  rw [stepUncounted_eq, hactivity]
  exact congrArg runInstruction (awake_of_running hhalted hstopped)

omit [ExternalMemory σ] in
theorem wakeFromHalt_control (c : Core σ) : c.wakeFromHalt.cpu.control =
    { c.cpu.control with halted := c.wakeFromHalt.cpu.halted } := by
  unfold wakeFromHalt
  split <;> rfl

omit [ExternalMemory σ] in
theorem wakeFromHalt_halted {c : Core σ} (h : c.wakeFromHalt.cpu.halted) : c.cpu.halted := by
  unfold wakeFromHalt at h
  split at h
  · cases h
  · exact h

omit [ExternalMemory σ] in
theorem wakeFromStop_control (c : Core σ) : c.wakeFromStop.cpu.control =
    { c.cpu.control with stopped := c.wakeFromStop.cpu.stopped } := by
  unfold wakeFromStop
  split
  · dsimp only
    split <;> rfl
  · rfl

omit [ExternalMemory σ] in
theorem wakeFromStop_stopped {c : Core σ} (h : c.wakeFromStop.cpu.stopped) : c.cpu.stopped := by
  unfold wakeFromStop at h
  split at h
  · assumption
  · exact h

omit [ExternalMemory σ] in
theorem awake_control (c : Core σ) : c.awake.cpu.control =
    { c.cpu.control with halted := c.awake.cpu.halted, stopped := c.awake.cpu.stopped } := by
  have hstop := c.wakeFromHalt.wakeFromStop_control
  have hhalted : c.awake.cpu.halted = c.wakeFromHalt.cpu.halted := congrArg Control.halted hstop
  rw [hhalted]
  rw [c.wakeFromHalt_control] at hstop
  exact hstop

omit [ExternalMemory σ] in
theorem awake_control_sound {c : Core σ} (h : c.cpu.control.Sound) :
    c.awake.cpu.control.Sound := by
  have hhalt : c.wakeFromHalt.cpu.control.Sound := by
    rw [wakeFromHalt_control]
    exact h.wake rfl rfl rfl wakeFromHalt_halted id
  rw [awake, wakeFromStop_control]
  exact hhalt.wake rfl rfl rfl id wakeFromStop_stopped

omit [ExternalMemory σ] in
theorem promoteEnable_control (c : Core σ) (wasPending : Bool) :
    (c.promoteEnable wasPending).cpu.control = c.cpu.control.promote wasPending := by
  have hpending : c.registers.imePending = c.cpu.control.imePending := rfl
  unfold promoteEnable Control.promote
  rw [hpending]
  split <;> rfl

/-- The processor with its instruction read, and the program counter behind it. -/
def fetched (c : Core σ) : Core σ := c.fetch.2.mapRegisters ({ · with pc := c.fetch.1.next })

theorem runInstruction_control (c : Core σ) : ∃ switches, c.runInstruction.1.cpu.control =
    (c.cpu.control.after switches c.fetch.1.operation).promote c.cpu.control.imePending := by
  have hrun : c.runInstruction.1.cpu.control =
      (c.fetched.execute c.fetch.1).1.cpu.control.promote c.cpu.control.imePending :=
    promoteEnable_control _ _
  have hfetched : c.fetched.cpu.control = c.cpu.control := rfl
  rw [execute_control, hfetched] at hrun
  exact ⟨_, hrun⟩

theorem dispatch_control (c : Core σ) (irq : Interrupt) : (c.dispatch irq).cpu.control =
    { c.cpu.control with ime := false, halted := false } := rfl

theorem step_control_sound {c : Core σ} (h : c.cpu.control.Sound) :
    c.step.1.cpu.control.Sound := by
  have hstep : c.step.1.cpu.control = c.stepUncounted.1.cpu.control := rfl
  rw [hstep, stepUncounted_eq]
  cases hactivity : c.activity with
  | rest =>
    dsimp only
    split
    · exact h
    · exact awake_control_sound h
  | dispatch irq =>
    obtain ⟨-, hime, -⟩ := activity_eq_dispatch.mp hactivity
    have hwake := c.wakeFromHalt_control
    rw [dispatch_control, hwake]
    exact h.dispatch hime
  | execute i =>
    obtain ⟨hlocked, hstopped, hhalted, hi⟩ := of_activity_execute hactivity
    obtain ⟨switches, hrun⟩ := c.awake.runInstruction_control
    have hlocked' : c.awake.cpu.locked = false :=
      (congrArg Control.locked c.awake_control).trans hlocked
    dsimp only
    rw [hrun]
    exact (awake_control_sound h).execute hhalted hstopped hlocked' switches _

end Core
end Handheld
