import Handheld.Proofs.Bus.Reachable
import Handheld.Proofs.Bus.WorkMemory
import Handheld.Proofs.Cpu.Activity
import Handheld.Proofs.Priority

/-!
The dispatch of an interrupt and the way back. The request that is served and its routine are those
of the lowest bit before the step, wherever the stack lies.
-/

namespace Handheld

namespace Core

variable {σ : Type} [ExternalMemory σ]

theorem fetch_of_single {c : Core σ} {code : UInt8} {b : Bus σ}
    (hread : c.bus.read c.cpu.registers.pc = (code, b)) (hcode : code ≠ Instruction.selector)
    (hsingle : (Operation.ofCode code).immediate = .none) :
    c.fetch = (⟨c.cpu.registers.pc, .ofCode code, code, false, 0, 0⟩, ⟨c.cpu, b⟩) := by
  have hselected : (code == Instruction.selector) = false := by simpa using hcode
  have hpure : ∀ {α : Type} (x : α), (pure x : StateM (Bus σ) α) b = (x, b) := fun _ => rfl
  simp [fetch, registers, Instruction.decodeWith, StateT.run, bind, StateT.bind, hread, hselected,
    hsingle, Immediate.length, hpure]

theorem runInstruction_reti {c : Core σ} (hcode : c.bus.peek c.cpu.registers.pc = 0xD9)
    (hpc : Region.ofAddress c.cpu.registers.pc ≠ .io)
    (hlow : Region.ofAddress c.cpu.registers.sp ≠ .io)
    (hhigh : Region.ofAddress (c.cpu.registers.sp + 1) ≠ .io) :
    c.runInstruction.1 = ⟨{ c.cpu with registers := { c.cpu.registers with
      ime := true
      imePending := false
      pc := word (c.bus.peek (c.cpu.registers.sp + 1)) (c.bus.peek c.cpu.registers.sp)
      sp := c.cpu.registers.sp + 2 } }, c.bus⟩ := by
  have hread := c.bus.read_eq_peek hpc
  rw [hcode] at hread
  have hfetch := fetch_of_single hread (by decide) rfl
  have hop : Operation.ofCode 0xD9 = .retInterrupt := rfl
  simp only [runInstruction, hfetch, hop, execute, ret, pop, jump, readByte, mapRegisters, registers,
    Bus.read_eq_peek _ hlow, Bus.read_eq_peek _ hhigh, promoteEnable]
  simp

theorem dispatch_awake (c : Core σ) (irq : Interrupt) :
    c.wakeFromHalt.dispatch irq = c.dispatch irq := by
  unfold wakeFromHalt
  split <;> rfl

/-- What the step of a dispatch leaves: the processor at the routine, and on the stack where it was. -/
def dispatched (c : Core σ) (irq : Interrupt) : Core σ :=
  let pc := c.cpu.registers.pc
  let sp := c.cpu.registers.sp
  { cpu := { c.cpu with
      halted := false
      cycles := c.cpu.cycles + 20
      registers := { c.cpu.registers with ime := false, sp := sp - 2, pc := irq.vector } }
    bus := (Bus.write { c.bus with interrupts := c.bus.interrupts.acknowledge irq }
      (sp - 1) (highByte pc)).write (sp - 2) (lowByte pc) }

theorem step_dispatch {c : Core σ} {irq : Interrupt} (h : c.activity = .dispatch irq) :
    c.step = (c.dispatched irq, 20) := by
  have huncounted : c.stepUncounted = (c.dispatch irq, dispatchCycles) := by
    rw [stepUncounted_eq, h, ← dispatch_awake]
  rw [step, huncounted]
  rfl

theorem step_reti {c : Core σ} (hlocked : c.cpu.locked = false) (hhalted : c.cpu.halted = false)
    (hstopped : c.cpu.stopped = false) (hime : c.cpu.registers.ime = false)
    (hcode : c.bus.peek c.cpu.registers.pc = 0xD9)
    (hpc : Region.ofAddress c.cpu.registers.pc ≠ .io)
    (hlow : Region.ofAddress c.cpu.registers.sp ≠ .io)
    (hhigh : Region.ofAddress (c.cpu.registers.sp + 1) ≠ .io) :
    c.step.1.cpu.registers = { c.cpu.registers with
      ime := true
      imePending := false
      pc := word (c.bus.peek (c.cpu.registers.sp + 1)) (c.bus.peek c.cpu.registers.sp)
      sp := c.cpu.registers.sp + 2 } := by
  have hnone : c.dispatchable? = none := if_neg (Bool.eq_false_iff.mp hime)
  have hrun := (activity_of_running hlocked hhalted hstopped hnone).2
  have hstep : c.step.1.cpu.registers = c.stepUncounted.1.cpu.registers := rfl
  rw [hstep, hrun, runInstruction_reti hcode hpc hlow hhigh]

theorem step_reti_back {c : Core σ} {pc sp : UInt16} (hlocked : c.cpu.locked = false)
    (hhalted : c.cpu.halted = false) (hstopped : c.cpu.stopped = false)
    (hime : c.cpu.registers.ime = false) (hcode : c.bus.peek c.cpu.registers.pc = 0xD9)
    (hpc : Region.ofAddress c.cpu.registers.pc ≠ .io) (hsp : c.cpu.registers.sp = sp - 2)
    (hmemory : ∀ a ∈ [sp - 1, sp - 2], Bus.InMemory a)
    (hhigh : c.bus.peek (sp - 1) = highByte pc) (hlow : c.bus.peek (sp - 2) = lowByte pc) :
    let back := c.step.1.cpu.registers
    back.pc = pc ∧ back.sp = sp ∧ back.ime = true := by
  have hnext := Bus.pushed_next sp
  have hlowio := (hmemory (sp - 2) (by simp)).ne_io
  have hhighio := (hmemory (sp - 1) (by simp)).ne_io
  have hreti := step_reti hlocked hhalted hstopped hime hcode hpc (by rwa [hsp])
    (by rwa [hsp, hnext])
  rw [hsp, hnext, hhigh, hlow, word_highByte_lowByte, UInt16.sub_add_cancel] at hreti
  intro back
  rw [show back = _ from hreti]
  exact ⟨rfl, rfl, rfl⟩

/-- An interrupt is dispatched in 20 cycles to the routine of the lowest bit that is both requested
and enabled before the step, even if the stack lies on the registers that say so; and where the
stack keeps what is written, a routine that is only RETI leads back. -/
theorem dispatch_serves_lowest {c : Core σ} (hlocked : c.cpu.locked = false)
    (hstopped : c.cpu.stopped = false) (hime : c.cpu.registers.ime = true)
    (hwaiting : c.bus.interrupts.enabled &&& c.bus.interrupts.requested &&& 0x1F ≠ 0) :
    let pc := c.cpu.registers.pc
    let sp := c.cpu.registers.sp
    let waiting := (c.bus.interrupts.enabled &&& c.bus.interrupts.requested).toNat
    let d := c.step.1
    ∃ k < 5, waiting.testBit k ∧ (∀ n < k, waiting.testBit n = false) ∧
      let vector : UInt16 := 0x40 + 8 * UInt16.ofNat k
      let left : Interrupts := { c.bus.interrupts with
        requested := c.bus.interrupts.requested &&& ~~~(1 <<< UInt8.ofNat k) }
      c.step.2 = 20 ∧
      d.cpu = { c.cpu with
        halted := false
        cycles := c.cpu.cycles + 20
        registers := { c.cpu.registers with ime := false, sp := sp - 2, pc := vector } } ∧
      d.bus = (Bus.write { c.bus with interrupts := left } (sp - 1) (highByte pc)).write (sp - 2)
        (lowByte pc) ∧
      ((∀ a ∈ [sp - 1, sp - 2], Region.ofAddress a ≠ .io ∧ Region.ofAddress a ≠ .enable) →
        d.bus.interrupts = left) ∧
      ((∀ a ∈ [sp - 1, sp - 2], Bus.InMemory a) →
        d.bus.peek (sp - 1) = highByte pc ∧ d.bus.peek (sp - 2) = lowByte pc ∧
        (c.bus.peek vector = 0xD9 → ∀ between : List Bus.Event,
          (∀ e ∈ between, ∀ a v, e ≠ .write a v) →
            let back := (step ⟨d.cpu, d.bus.performAll between⟩).1.cpu.registers
            back.pc = pc ∧ back.sp = sp ∧ back.ime = true)) := by
  intro pc sp waiting d
  have hpending : c.bus.interrupts.pending ≠ 0 := by
    rw [Interrupts.pending, UInt8.and_comm c.bus.interrupts.requested]
    exact hwaiting
  obtain ⟨irq, hirq⟩ := Interrupts.exists_highestPending hpending
  obtain ⟨-, hbit, hlowest⟩ := Interrupts.highestPending?_lowest hirq
  have hfew := Interrupts.pending_bit_lt hbit
  have hstep := step_dispatch (activity_eq_dispatch.mpr ⟨hlocked, hime, hirq⟩)
  rw [Interrupts.pending_testBit _ hfew] at hbit
  refine ⟨irq.bit, hfew, hbit, fun n hn => ?_, ?_⟩
  · rw [← hlowest n hn, Interrupts.pending_testBit _ (Nat.lt_trans hn hfew)]
  intro vector left
  have hcpu : d.cpu = { c.cpu with
      halted := false
      cycles := c.cpu.cycles + 20
      registers := { c.cpu.registers with ime := false, sp := sp - 2, pc := vector } } :=
    congrArg (fun s => s.1.cpu) hstep
  have hbus : d.bus = (Bus.write { c.bus with interrupts := left } (sp - 1) (highByte pc)).write
      (sp - 2) (lowByte pc) := congrArg (fun s => s.1.bus) hstep
  refine ⟨congrArg Prod.snd hstep, hcpu, hbus, fun houtside => ?_, fun hmemory => ?_⟩
  · obtain ⟨⟨hhigh, hhigh'⟩, hlow, hlow'⟩ := by simpa using houtside
    rw [hbus, Bus.write_interrupts _ hlow hlow', Bus.write_interrupts _ hhigh hhigh']
  · obtain ⟨hhigh, hlow, hcartridge⟩ := Bus.peek_pushed { c.bus with interrupts := left } hmemory pc
    rw [← hbus] at hhigh hlow hcartridge
    refine ⟨hhigh, hlow, fun hcode between hbetween => ?_⟩
    have hkept := d.bus.performAll_sameMemory hbetween
    have hvector : Region.ofAddress vector = .cartridge := by
      cases irq <;> rfl
    have hroutine : (d.bus.performAll between).peek vector = 0xD9 := by
      rw [hkept.peek (.inr hvector), ← hcode]
      simp only [Bus.peek, hvector, hcartridge]
    have hhigh' := (hkept.peek (.inl (hmemory _ (by simp)))).trans hhigh
    have hlow' := (hkept.peek (.inl (hmemory _ (by simp)))).trans hlow
    rw [hcpu]
    exact step_reti_back hlocked rfl hstopped rfl hroutine (by simp [hvector]) rfl hmemory hhigh'
      hlow'

/-- A request of the lowest bit in a program whose routine is only RETI, with the stack in memory. -/
def interrupted : Core VolatileRam :=
  let routine := List.replicate 0x40 0 ++ [0xD9]
  let cpu := Cpu.postBoot .color
  { cpu := { cpu with registers := { cpu.registers with ime := true, pc := 0xC123 } }
    bus := { Bus.bare with
      interrupts := ⟨0x05, 0x1D⟩
      cartridge := { Bus.bare.cartridge with rom := ⟨routine.toArray⟩ } } }

theorem interrupted_served :
    let d := interrupted.step.1
    let back := (step ⟨d.cpu, d.bus.performAll [.cycle]⟩).1.cpu.registers
    interrupted.step.2 = 20 ∧ d.cpu.registers.pc = 0x40 ∧ d.bus.interrupts = ⟨0x04, 0x1D⟩ ∧
      d.bus.peek 0xFFFD = 0xC1 ∧ d.bus.peek 0xFFFC = 0x23 ∧ back.pc = 0xC123 ∧
      back.sp = 0xFFFE ∧ back.ime = true := by
  have hmemory : ∀ a ∈ [(0xFFFE : UInt16) - 1, 0xFFFE - 2], Region.ofAddress a = .hram := by
    simp [Region.ofAddress]
  have hlocked : interrupted.cpu.locked = false := rfl
  have hstopped : interrupted.cpu.stopped = false := rfl
  have hime : interrupted.cpu.registers.ime = true := rfl
  have hpc : interrupted.cpu.registers.pc = 0xC123 := rfl
  have hsp : interrupted.cpu.registers.sp = 0xFFFE := rfl
  have hinterrupts : interrupted.bus.interrupts = ⟨0x05, 0x1D⟩ := rfl
  have hcode : interrupted.bus.peek (0x40 + 8 * UInt16.ofNat 0) = 0xD9 := by decide +kernel
  have hwaiting : interrupted.bus.interrupts.enabled &&& interrupted.bus.interrupts.requested
      &&& 0x1F ≠ 0 := by
    rw [hinterrupts]
    decide
  generalize interrupted = c at *
  obtain ⟨k, hk, -, hlowest, hcycles, hcpu, -, hrequests, hreturn⟩ :=
    dispatch_serves_lowest hlocked hstopped hime hwaiting
  rw [hsp, hpc] at hreturn
  rw [hsp, hinterrupts] at hrequests
  rw [hinterrupts] at hlowest
  have hfirst : k = 0 := by
    by_contra hne
    exact absurd (hlowest 0 (Nat.pos_of_ne_zero hne)) (by decide)
  subst hfirst
  have hleft := hrequests fun a ha => by simp [hmemory a ha]
  obtain ⟨hhigh, hlow, hback⟩ := hreturn fun a ha => .inr (hmemory a ha)
  intro d
  refine ⟨hcycles, ?_, hleft, hhigh, hlow, hback hcode [.cycle] (by simp)⟩
  rw [hcpu]
  rfl

end Core
end Handheld
