import Handheld.Proofs.Bus.Events
import Handheld.Proofs.Priority

/-!
Interrupt requests over the events of a bus. Units only ever add to them; what takes them back is the
processor, when it acknowledges one or writes the request register.
-/

namespace Handheld

def Interrupt.maskIf (i : Interrupt) (wanted : Bool) : UInt8 := if wanted then i.mask else 0

theorem Interrupt.maskIf_testBit (i j : Interrupt) (wanted : Bool) :
    (j.maskIf wanted).toNat.testBit i.bit = (wanted && decide (j = i)) := by
  cases wanted <;> cases i <;> cases j <;> decide

namespace Interrupts

theorem raiseIf_requested (s : Interrupts) (i : Interrupt) (wanted : Bool) :
    (s.raiseIf i wanted).requested = s.requested ||| i.maskIf wanted := by
  cases wanted with
  | true => rfl
  | false => exact (UInt8.or_zero).symm

theorem isRequested_raiseIf (s : Interrupts) (i j : Interrupt) (wanted : Bool) :
    (s.raiseIf j wanted).isRequested i = (s.isRequested i || (wanted && decide (j = i))) := by
  simp [isRequested_eq, raiseIf_requested, Interrupt.maskIf_testBit]

end Interrupts

namespace Bus

variable {σ : Type} [ExternalMemory σ]

def raises (b : Bus σ) : Event → UInt8
  | .cycle =>
    Interrupt.vblank.maskIf b.ppu.step.2.vblank ||| Interrupt.lcdStat.maskIf b.ppu.step.2.stat |||
      Interrupt.timer.maskIf b.timer.step.2 ||| Interrupt.serial.maskIf b.serial.step.2
  | .read address => Interrupt.joypad.maskIf (address == 0xFF00 && (b.joypad.sync b.held).2)
  | .write address v => Interrupt.timer.maskIf (b.timer.write address v).2
  | .sampleButtons => Interrupt.joypad.maskIf (b.joypad.sync b.held).2
  | .resetDivider => Interrupt.timer.maskIf (b.timer.setDiv 0).2
  | _ => 0

def raisedOver (b : Bus σ) : List Event → UInt8
  | [] => 0
  | e :: rest => b.raises e ||| (b.perform e).raisedOver rest

theorem cycle_interrupts (b : Bus σ) : b.cycle.interrupts =
    (((b.interrupts.raiseIf .vblank b.ppu.step.2.vblank).raiseIf .lcdStat
      b.ppu.step.2.stat).raiseIf .timer b.timer.step.2).raiseIf .serial b.serial.step.2 := by
  obtain ⟨vram, oam, hdma⟩ := stepTransfers_bus b.dma b.stepPpu.stepTimer
  have hstep : b.stepPpu.stepTimer.stepDma =
      { (b.dma.step b.stepPpu.stepTimer).2 with
        dma := (b.dma.step b.stepPpu.stepTimer).1 } := rfl
  rw [cycle, hstep, hdma]
  rfl

omit [ExternalMemory σ] in
theorem recordFault_interrupts (b : Bus σ) (f : Fault) :
    (b.recordFault f).interrupts = b.interrupts := by
  unfold recordFault
  split <;> rfl

theorem target_eq_joypad {model : Model} {a : UInt16} :
    IoTarget.ofAddress model a = .joypad ↔ a = 0xFF00 := by
  constructor
  · intro h
    simp only [IoTarget.ofAddress, ite_eq_iff, reduceCtorEq, and_false, or_false, and_true] at h
    simp [h]
  · rintro rfl
    rfl

theorem target_eq_requests {model : Model} {a : UInt16} :
    IoTarget.ofAddress model a = .requests ↔ a = 0xFF0F := by
  constructor
  · intro h
    simp only [IoTarget.ofAddress, ite_eq_iff, reduceCtorEq, and_false, false_or, or_false,
      and_true] at h
    simp [h]
  · rintro rfl
    rfl

omit [ExternalMemory σ] in
theorem raises_write_other (b : Bus σ) {a : UInt16}
    (h : Region.ofAddress a ≠ .io ∨ IoTarget.ofAddress b.model a ≠ .timer) (v : UInt8) :
    b.raises (.write a v) = 0 := by
  have hquiet : (b.timer.write a v).2 = false := by
    unfold Timer.write
    split
    case h_1 | h_4 => exact absurd rfl (h.resolve_left fun hio => hio rfl)
    all_goals rfl
  rw [raises, hquiet]
  rfl

omit [ExternalMemory σ] in
theorem raises_read_other (b : Bus σ) {a : UInt16}
    (h : Region.ofAddress a ≠ .io ∨ IoTarget.ofAddress b.model a ≠ .joypad) :
    b.raises (.read a) = 0 := by
  have hne : a ≠ 0xFF00 := by
    rintro rfl
    exact absurd rfl (h.resolve_left fun hio => hio rfl)
  simp [raises, hne, Interrupt.maskIf]

omit [ExternalMemory σ] in
theorem readIo_interrupts (b : Bus σ) (a : UInt16) : (b.readIo a).2.interrupts.requested =
    b.interrupts.requested ||| if IoTarget.ofAddress b.model a = .joypad then
      Interrupt.joypad.maskIf (b.joypad.sync b.held).2 else 0 := by
  unfold readIo
  cases IoTarget.ofAddress b.model a with
  | joypad => exact Interrupts.raiseIf_requested ..
  | unmapped => simp [recordFault_interrupts]
  | _ => simp

theorem read_requested (b : Bus σ) (a : UInt16) : (b.read a).2.interrupts.requested =
    b.interrupts.requested ||| b.raises (.read a) := by
  unfold read
  split
  case isTrue hio =>
    rw [readIo_interrupts]
    simp only [target_eq_joypad]
    by_cases h : a = 0xFF00 <;> simp [raises, h, Interrupt.maskIf]
  case isFalse hio =>
    rw [raises_read_other b (.inl hio), UInt8.or_zero]

theorem write_requested (b : Bus σ) {a : UInt16} (h : a ≠ 0xFF0F) (v : UInt8) :
    (b.write a v).interrupts.requested = b.interrupts.requested ||| b.raises (.write a v) := by
  cases hregion : Region.ofAddress a with
  | io =>
    simp only [write, hregion]
    unfold writeIo
    cases htarget : IoTarget.ofAddress b.model a with
    | timer => exact Interrupts.raiseIf_requested ..
    | requests => exact absurd (target_eq_requests.mp htarget) h
    | unmapped =>
      rw [raises_write_other b (.inr (by simp [htarget])), UInt8.or_zero, recordFault_interrupts]
    | _ => rw [raises_write_other b (.inr (by simp [htarget])), UInt8.or_zero]
  | _ =>
    rw [raises_write_other b (.inl (by simp [hregion])), UInt8.or_zero]
    simp only [write, hregion]
    all_goals rfl

/-- Only the processor takes requests back, by an acknowledgement or a write. -/
theorem perform_requested (b : Bus σ) {e : Event} (hack : ∀ irq, e ≠ .acknowledge irq)
    (hwrite : ∀ v, e ≠ .write 0xFF0F v) :
    (b.perform e).interrupts.requested = b.interrupts.requested ||| b.raises e := by
  cases e with
  | cycle =>
    rw [perform, b.cycle_interrupts]
    simp only [Interrupts.raiseIf_requested, raises, UInt8.or_assoc]
  | read a => exact b.read_requested a
  | write a v =>
    have hne : a ≠ 0xFF0F := by
      rintro rfl
      exact hwrite v rfl
    exact b.write_requested hne v
  | acknowledge irq => exact absurd rfl (hack irq)
  | sampleButtons | resetDivider => exact Interrupts.raiseIf_requested ..
  | switchSpeed =>
    rw [perform, Bus.switchSpeed]
    split <;> exact (UInt8.or_zero).symm
  | fault f =>
    rw [perform, recordFault_interrupts]
    exact (UInt8.or_zero).symm
  | renderSound | hold => exact (UInt8.or_zero).symm

theorem performAll_requested {b : Bus σ} {events : List Event}
    (h : ∀ e ∈ events, (∀ irq, e ≠ .acknowledge irq) ∧ ∀ v, e ≠ .write 0xFF0F v) :
    (b.performAll events).interrupts.requested =
      b.interrupts.requested ||| b.raisedOver events := by
  induction events generalizing b with
  | nil => exact (UInt8.or_zero).symm
  | cons e rest ih =>
    obtain ⟨hack, hwrite⟩ := h e (List.mem_cons_self ..)
    rw [performAll_cons, ih fun e' he' => h e' (List.mem_cons_of_mem _ he'),
      b.perform_requested hack hwrite, UInt8.or_assoc]
    rfl

end Bus
end Handheld
