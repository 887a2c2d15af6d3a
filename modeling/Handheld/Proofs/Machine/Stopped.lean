import Handheld.Proofs.Cpu.Dispatch
import Handheld.Proofs.Machine.Reachable

/-!
The processor stopped, with no button held and none requested. It does nothing, unless an interrupt
can be dispatched; then it goes to the routine and stays stopped in front of it.
-/

namespace Handheld

namespace Joypad

theorem lines_released {p : Joypad} (h : p.sampled = {}) : p.lines = 0x0F := by
  unfold lines
  rw [h]
  split <;> split <;> rfl

theorem sync_released (p : Joypad) : p.sync {} = ({ p with sampled := {} }, false) := by
  have hfalls : p.lines &&& ~~~0x0F &&& 0x0F = 0 := by
    rw [UInt8.and_assoc]
    exact UInt8.and_zero
  simp only [sync, lines_released, hfalls]
  rfl

end Joypad

variable {σ : Type} [ExternalMemory σ]

omit [ExternalMemory σ] in
theorem Bus.syncJoypad_released {b : Bus σ} (h : b.held = {}) :
    b.syncJoypad = { b with joypad := { b.joypad with sampled := {} } } := by
  unfold syncJoypad
  rw [h, Joypad.sync_released]
  rfl

namespace Core

/-- The step executes nothing, in four cycles: a sample of the buttons is all that is left of it. -/
def Rests (c : Core σ) : Prop :=
  c.step = (⟨{ c.cpu with cycles := c.cpu.cycles + 4 },
    { c.bus with joypad := { c.bus.joypad with sampled := {} } }⟩, 4)

theorem rests_of_stopped {c : Core σ} (hstopped : c.cpu.stopped) (hhalted : c.cpu.halted = false)
    (hlocked : c.cpu.locked = false) (hnone : c.dispatchable? = none) (hheld : c.bus.held = {})
    (hrequest : c.bus.interrupts.isRequested .joypad = false) : c.Rests := by
  have hawake : c.awake =
      ⟨c.cpu, { c.bus with joypad := { c.bus.joypad with sampled := {} } }⟩ := by
    have hhalt : c.wakeFromHalt = c := by simp [wakeFromHalt, hhalted]
    rw [awake, hhalt, wakeFromStop, if_pos hstopped, Bus.syncJoypad_released hheld]
    simp [Joypad.anyHeld, hrequest]
  have hrest : c.activity = .rest := by
    simp [activity, hlocked, hnone, hawake, hstopped]
  rw [Rests, step, stepUncounted_eq, hrest]
  simp [hlocked, hawake, idleCycles]

end Core

namespace Machine

/-- Stopped, with no button held or requested, the processor does nothing exactly while no interrupt
can be dispatched. One that can is, and the processor waits at the routine as it did before. -/
theorem stopped_rests_unless_dispatch {m : Machine σ} (h : m.Reachable) (hstopped : m.cpu.stopped)
    (hheld : m.bus.held = {}) (hrequest : m.bus.interrupts.isRequested .joypad = false) :
    (m.core.Rests ↔ ¬(m.cpu.registers.ime = true ∧ m.bus.interrupts.pending ≠ 0)) ∧
    (m.cpu.registers.ime = true → m.bus.interrupts.pending ≠ 0 → ∃ irq,
      let d := m.core.dispatched irq
      m.bus.interrupts.highestPending? = some irq ∧ m.core.step = (d, 20) ∧ d.cpu.stopped ∧
        ∀ b : Bus σ, b.held = {} → b.interrupts.isRequested .joypad = false →
          Core.Rests ⟨d.cpu, b⟩) := by
  obtain ⟨hhalted, hlocked⟩ := h.control_sound.stopped hstopped
  have hdispatch : ∀ irq, m.cpu.registers.ime = true →
      m.bus.interrupts.highestPending? = some irq → m.core.activity = .dispatch irq :=
    fun irq hime hirq => Core.activity_eq_dispatch.mpr ⟨hlocked, hime, hirq⟩
  refine ⟨⟨fun hrests hable => ?_, fun hable => ?_⟩, fun hime hpending => ?_⟩
  · obtain ⟨irq, hirq⟩ := Interrupts.exists_highestPending hable.2
    have hstep := Core.step_dispatch (hdispatch irq hable.1 hirq)
    have hcycles : 4 = 20 := congrArg Prod.snd (hrests.symm.trans hstep)
    cases hcycles
  · refine Core.rests_of_stopped hstopped hhalted hlocked ?_ hheld hrequest
    have hime : m.core.registers.ime = m.cpu.registers.ime := rfl
    have hinterrupts : m.core.bus.interrupts = m.bus.interrupts := rfl
    unfold Core.dispatchable?
    rw [hime, hinterrupts]
    split
    case isTrue hset =>
      rw [Interrupts.highestPending?, if_pos]
      exact not_not.mp fun hpending => hable ⟨hset, hpending⟩
    case isFalse => rfl
  · obtain ⟨irq, hirq⟩ := Interrupts.exists_highestPending hpending
    have hstep := Core.step_dispatch (hdispatch irq hime hirq)
    exact ⟨irq, hirq, hstep, hstopped,
      fun b hb hb' => Core.rests_of_stopped hstopped rfl hlocked rfl hb hb'⟩

/-- STOP, with a request enabled: the next step goes to its routine, and the one after it waits. -/
theorem stopped_dispatches_once :
    let m := (programmed [0x3E, 0x01, 0xE0, 0xFF, 0xFB, 0x10, 0x00]).processorSteps 4
    let d := m.core.step.1
    m.Reachable ∧ m.cpu.stopped ∧ m.bus.held = {} ∧
      m.bus.interrupts.isRequested .joypad = false ∧ ¬m.core.Rests ∧ m.core.step.2 = 20 ∧
      d.cpu.stopped ∧ d.cpu.registers.pc = 0x40 ∧ d.Rests := by
  intro m d
  have hreachable : m.Reachable := programmed_reachable _ _
  have hstopped : m.cpu.stopped := by decide +kernel
  have hheld : m.bus.held = {} := by decide +kernel
  have hrequest : m.bus.interrupts.isRequested .joypad = false := by decide +kernel
  have hime : m.cpu.registers.ime = true := by decide +kernel
  have hirq : m.bus.interrupts.highestPending? = some .vblank := by decide +kernel
  have hpending : m.bus.interrupts.pending ≠ 0 := by decide +kernel
  have hheld' : d.bus.held = {} := by decide +kernel
  have hrequest' : d.bus.interrupts.isRequested .joypad = false := by decide +kernel
  clear_value m
  obtain ⟨hrests, hdispatch⟩ := stopped_rests_unless_dispatch hreachable hstopped hheld hrequest
  obtain ⟨irq, hirq', hstep, hstill, hnext⟩ := hdispatch hime hpending
  rw [hirq, Option.some.injEq] at hirq'
  subst hirq'
  have hd : d.cpu = _ := congrArg (fun s => s.1.cpu) hstep
  refine ⟨hreachable, hstopped, hheld, hrequest, fun h => hrests.mp h ⟨hime, hpending⟩,
    congrArg Prod.snd hstep, ?_, ?_, ?_⟩
  · rw [hd]
    exact hstill
  · rw [hd]
    rfl
  · have hagain := hnext d.bus hheld' hrequest'
    rw [← show d.cpu = _ from hd] at hagain
    exact hagain

end Machine
end Handheld
