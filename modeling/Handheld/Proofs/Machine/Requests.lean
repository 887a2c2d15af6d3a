import Handheld.Proofs.Bus.Requests
import Handheld.Proofs.Machine.Reachable

/-!
Interrupt requests over a step of the machine. None is lost but the one that is dispatched, unless
the processor overwrites them all.
-/

namespace Handheld

theorem Interrupt.testBit_acknowledge {requested : UInt8} {n : Nat} (irq : Interrupt)
    (h : requested.toNat.testBit n) (hne : n ≠ irq.bit) :
    (requested &&& ~~~irq.mask).toNat.testBit n := by
  have hn : n < 8 := by
    by_contra hge
    have hsmall : requested.toNat < 2 ^ n := Nat.lt_of_lt_of_le requested.toNat_lt
      (Nat.pow_le_pow_right (by decide) (Nat.le_of_not_lt hge))
    rw [Nat.testBit_lt_two_pow hsmall] at h
    cases h
  have hkept : ∀ n < 8, n ≠ irq.bit → (~~~irq.mask).toNat.testBit n = true := by
    cases irq <;> decide
  rw [UInt8.toNat_and, Nat.testBit_and, h, hkept n hn hne]
  rfl

namespace Machine

variable {σ : Type} [ExternalMemory σ]

theorem stepEvents_eq (m : Machine σ) : ∃ later, m.stepEvents = m.core.stepAccesses ++ later ∧
    (∀ irq, .acknowledge irq ∉ later) ∧ ∀ a v, .write a v ∉ later := by
  refine ⟨_, List.append_assoc .., ?_, ?_⟩
  · simp [List.mem_replicate]
  · simp [List.mem_replicate]

theorem step_requested {m : Machine σ} (hwrite : ∀ v, .write 0xFF0F v ∉ m.core.stepAccesses) :
    let before := m.bus.interrupts.requested
    let after := m.step.1.bus.interrupts.requested
    let raised := m.bus.raisedOver m.stepEvents
    (∃ irq, m.core.activity = .dispatch irq ∧ after = (before &&& ~~~irq.mask) ||| raised) ∨
      ((∀ irq, m.core.activity ≠ .dispatch irq) ∧ after = before ||| raised) := by
  obtain ⟨later, hevents, hack, hlater⟩ := m.stepEvents_eq
  rw [m.step_bus, hevents]
  rcases m.core.stepAccesses_acknowledge with
    ⟨irq, pushed, hdispatch, haccesses, hpushed⟩ | ⟨hnone, haccesses⟩
  · have hrest : ∀ e ∈ pushed ++ later,
        (∀ irq, e ≠ .acknowledge irq) ∧ ∀ v, e ≠ .write 0xFF0F v := by grind
    refine .inl ⟨irq, hdispatch, ?_⟩
    rw [haccesses, List.cons_append, Bus.performAll_cons, Bus.performAll_requested hrest]
    -- The acknowledgement itself raises nothing.
    exact congrArg (_ ||| ·) UInt8.zero_or.symm
  · have hall : ∀ e ∈ m.core.stepAccesses ++ later,
        (∀ irq, e ≠ .acknowledge irq) ∧ ∀ v, e ≠ .write 0xFF0F v := by grind
    exact .inr ⟨hnone, Bus.performAll_requested hall⟩

/-- Over a step the requests are those before it, less the one dispatched, and those that the units
make in it, be they the same or others; so no request is lost but the one dispatched, unless the
instruction or the push of the dispatch writes the request register. -/
theorem step_keeps_requests (m : Machine σ)
    (hwrite : ∀ v, .write 0xFF0F v ∉ m.core.stepAccesses) :
    let before := m.bus.interrupts.requested
    let after := m.step.1.bus.interrupts.requested
    let raised := m.bus.raisedOver m.stepEvents
    m.step.1.bus = m.bus.performAll m.stepEvents ∧
      (∀ irq, m.core.activity = .dispatch irq → after = (before &&& ~~~irq.mask) ||| raised) ∧
      ((∀ irq, m.core.activity ≠ .dispatch irq) → after = before ||| raised) ∧
      ∀ n, before.toNat.testBit n → (∀ irq, m.core.activity = .dispatch irq → n ≠ irq.bit) →
        after.toNat.testBit n := by
  intro before after raised
  have hcases := step_requested hwrite
  have hkeep : ∀ kept n, after = kept ||| raised → kept.toNat.testBit n →
      after.toNat.testBit n := by
    intro kept n hafter hkept
    rw [hafter, UInt8.toNat_or, Nat.testBit_or, hkept, Bool.true_or]
  refine ⟨m.step_bus, ?_⟩
  rcases hcases with ⟨irq, hdispatch, hafter⟩ | ⟨hnone, hafter⟩
  · refine ⟨fun irq' hirq' => ?_, fun hnone => absurd hdispatch (hnone irq), fun n hn hne => ?_⟩
    · cases hdispatch.symm.trans hirq'
      exact hafter
    · exact hkeep _ n hafter (irq.testBit_acknowledge hn (hne irq hdispatch))
  · exact ⟨fun irq hirq => absurd hirq (hnone irq), fun _ => hafter,
      fun n hn _ => hkeep _ n hafter hn⟩

theorem timer_requested_again :
    let m := (programmed [0x3E, 0x05, 0xE0, 0x07, 0x3E, 0x0C, 0xE0, 0x0F, 0x3E, 0x1F, 0xE0, 0xFF,
      0x3E, 0xFF, 0xE0, 0x05, 0xFB, 0x00]).processorSteps 10
    m.Reachable ∧ (∀ v, .write 0xFF0F v ∉ m.core.stepAccesses) ∧
      m.core.activity = .dispatch .timer ∧ m.bus.interrupts.requested = 0x0C ∧
      m.step.1.bus.interrupts.requested = 0x08 ||| 0x04 := by
  intro m
  have hreachable : m.Reachable := programmed_reachable _ _
  have hactivity : m.core.activity = .dispatch .timer := by decide +kernel
  have hstack : m.core.registers.sp = 0xFFFE := by decide +kernel
  have hbefore : m.bus.interrupts.requested = 0x0C := by decide +kernel
  have hraised : m.bus.raisedOver m.stepEvents = 0x04 := by decide +kernel
  clear_value m
  have hwrite : ∀ v, .write 0xFF0F v ∉ m.core.stepAccesses := by
    simp [Core.stepAccesses, hactivity, Registers.pushes, hstack]
  obtain ⟨-, hdispatch, -⟩ := step_keeps_requests m hwrite
  have hafter := hdispatch .timer hactivity
  rw [hbefore, hraised] at hafter
  exact ⟨hreachable, hwrite, hactivity, hbefore, hafter⟩

end Machine
end Handheld
