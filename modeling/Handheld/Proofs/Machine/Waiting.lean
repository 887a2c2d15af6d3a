import Handheld.Proofs.Bus.Requests
import Handheld.Proofs.Cpu.Running
import Handheld.Proofs.Machine.Frames
import Handheld.Proofs.Machine.Stopped

/-!
A stopped machine that waits for a button. Nothing but its units and the count of its cycles goes
on, so when a button is held it goes on with the instruction at which it stopped, and so do the
steps after that.
-/

namespace Handheld

namespace Bus
variable {σ : Type} [ExternalMemory σ]

theorem performAll_cycles (n : Nat) (b : Bus σ) : ∃ ppu timer serial dma interrupts,
    b.performAll (List.replicate n .cycle) = { b with ppu, timer, serial, dma, interrupts } ∧
      interrupts.isRequested .joypad = b.interrupts.isRequested .joypad := by
  induction n generalizing b with
  | zero => exact ⟨_, _, _, _, _, rfl, rfl⟩
  | succ n ih =>
    obtain ⟨timer, serial, interrupts, vram, oam, hcycle⟩ := b.cycle_bus
    have hrequest : b.cycle.interrupts.isRequested .joypad = b.interrupts.isRequested .joypad := by
      rw [b.cycle_interrupts]
      simp [Interrupts.isRequested_raiseIf]
    obtain ⟨ppu, timer, serial, dma, interrupts, hlast, hsame⟩ := ih b.cycle
    rw [List.replicate_succ, Bus.performAll_cons, Bus.perform, hlast]
    refine ⟨ppu, timer, serial, dma, interrupts, ?_, hsame.trans hrequest⟩
    rw [hcycle]

theorem write_speed_register {b : Bus σ} (hcolor : b.model.isColor) (v : UInt8) :
    b.write 0xFF4D v = { b with speedPrimed := v &&& 1 != 0 } := by
  have hregion : Region.ofAddress 0xFF4D = .io := rfl
  have htarget : IoTarget.ofAddress b.model 0xFF4D = .speed := by
    simp [IoTarget.ofAddress, hcolor]
  simp only [write, hregion, writeIo, htarget]

end Bus

namespace Machine

variable {σ : Type} [ExternalMemory σ] {m : Machine σ}

omit [ExternalMemory σ] in
theorem hold_held (m : Machine σ) : m.hold m.bus.held = m := rfl

/-- While a frame is not full, a step is one of the processor and the units that it clocks. -/
theorem step_within {cpu : Cpu} {b : Bus σ} {cycles : Nat} (hcore : m.core.step = (⟨cpu, b⟩, cycles))
    (hroom : m.frameCycles + cycles < m.bus.speed.frameBudget) :
    m.step.1.cpu = cpu ∧ m.step.1.frameCycles = m.frameCycles + cycles ∧
      ∃ ppu timer serial dma interrupts,
        m.step.1.bus = { b with ppu, timer, serial, dma, interrupts } ∧
        interrupts.isRequested .joypad = b.interrupts.isRequested .joypad := by
  rcases m.step_cases with ⟨hfull, -⟩ | ⟨-, hstep⟩
  · rw [hcore] at hfull
    omega
  · rw [hcore] at hstep
    rw [hstep]
    exact ⟨rfl, rfl, Bus.performAll_cycles _ b⟩

/-- Stopped, with no button that could wake it and no interrupt that could be dispatched. -/
structure Paused (m : Machine σ) : Prop where
  stopped : m.cpu.stopped = true
  halted : m.cpu.halted = false
  locked : m.cpu.locked = false
  ime : m.cpu.registers.ime = false
  held : m.bus.held = {}
  request : m.bus.interrupts.isRequested .joypad = false

/-- Nothing but the units and the count of the cycles has gone on for some steps. -/
structure Waits (start : Machine σ) (n : Nat) (m : Machine σ) : Prop where
  cpu : m.cpu = { start.cpu with cycles := start.cpu.cycles + 4 * n }
  bus : ∃ ppu timer joypad serial dma interrupts,
    m.bus = { start.bus with ppu, timer, joypad, serial, dma, interrupts }
  request : m.bus.interrupts.isRequested .joypad = false
  frameCycles : m.frameCycles = start.frameCycles + 4 * n

theorem Waits.step {start : Machine σ} {n : Nat} (hstart : start.Paused) (h : Waits start n m)
    (hroom : start.frameCycles + 4 * (n + 1) < start.bus.speed.frameBudget) :
    Waits start (n + 1) m.step.1 := by
  obtain ⟨hcpu, ⟨ppu, timer, joypad, serial, dma, interrupts, hbus⟩, hrequest, hsum⟩ := h
  have hcpu' : m.core.cpu = _ := hcpu
  have hbus' : m.core.bus = _ := hbus
  have hrests : m.core.Rests := by
    refine Core.rests_of_stopped ?_ ?_ ?_ ?_ ?_ hrequest
    · rw [hcpu']; exact hstart.stopped
    · rw [hcpu']; exact hstart.halted
    · rw [hcpu']; exact hstart.locked
    · have hime : m.core.registers.ime = false := by
        rw [Core.registers, hcpu']
        exact hstart.ime
      exact if_neg (Bool.eq_false_iff.mp hime)
    · rw [hbus']; exact hstart.held
  have hspeed : m.bus.speed = start.bus.speed := by rw [hbus]
  obtain ⟨hnext, hmore, ppu', timer', serial', dma', interrupts', hafter, hsame⟩ :=
    step_within hrests (by rw [hspeed, hsum]; omega)
  refine ⟨?_, ?_, ?_, ?_⟩
  · rw [hnext, hcpu']
    simp only [Nat.mul_add, Nat.add_assoc]
  · rw [hafter, hbus']
    exact ⟨_, _, _, _, _, _, rfl⟩
  · rw [hafter]
    exact hsame.trans hrequest
  · rw [hmore, hsum]
    omega

theorem Paused.waits {start : Machine σ} (h : start.Paused) {n : Nat}
    (hroom : start.frameCycles + 4 * n < start.bus.speed.frameBudget) :
    Waits start n (start.runHolding (released n)) := by
  induction n with
  | zero => exact ⟨rfl, ⟨_, _, _, _, _, _, rfl⟩, h.request, rfl⟩
  | succ n ih =>
    have hwaits := ih (by omega)
    obtain ⟨ppu, timer, joypad, serial, dma, interrupts, hbus⟩ := hwaits.bus
    have hheld : (start.runHolding (released n)).hold {} = start.runHolding (released n) := by
      have hnone : (start.runHolding (released n)).bus.held = {} := by
        rw [hbus]
        exact h.held
      rw [← hnone, hold_held]
    rw [released_add, runHolding_append, show released 1 = [{}] from rfl, runHolding, hheld]
    exact hwaits.step h hroom

/-- The processor runs, at some instruction of the cartridge that was there at the start. -/
structure RunsAt (start : Machine σ) (pc : UInt16) (m : Machine σ) : Prop where
  cpu : ∃ cycles, m.cpu =
    { start.cpu with registers := { start.cpu.registers with pc }, stopped := false, cycles }
  model : m.bus.model = start.bus.model
  cartridge : m.bus.cartridge = start.bus.cartridge

omit [ExternalMemory σ] in
theorem RunsAt.running {start : Machine σ} {pc : UInt16} (h : RunsAt start pc m)
    (hstart : start.Paused) (hpending : start.cpu.registers.imePending = false) :
    Core.Running m.core.cpu := by
  obtain ⟨cycles, hcpu⟩ := h.cpu
  rw [show m.core.cpu = _ from hcpu]
  exact ⟨hstart.locked, hstart.halted, rfl, hstart.ime, hpending⟩

theorem RunsAt.fetch {start : Machine σ} {pc : UInt16} (h : RunsAt start pc m)
    (hplace : ∀ k < 4, Region.ofAddress (pc + UInt16.ofNat k) = .cartridge) :
    m.core.fetch = (Instruction.decode start.bus.cartridge.read pc, m.core) := by
  obtain ⟨cycles, hcpu⟩ := h.cpu
  have hpc : m.core.cpu.registers.pc = pc := by
    rw [show m.core.cpu = _ from hcpu]
  have hcartridge : m.core.bus.cartridge = start.bus.cartridge := h.cartridge
  rw [← hpc] at hplace
  rw [Core.fetch_of_cartridge hplace, hpc, hcartridge]

theorem step_congr {c : Core σ} (hcore : m.core.step = c.step)
    (hspeed : c.bus.speed = m.core.bus.speed) : m.step = step { m with core := c } := by
  obtain ⟨core⟩ := m
  simp only at hcore hspeed
  simp only [step, hcore, hspeed]

theorem Waits.woken {start : Machine σ} {n : Nat} {buttons : Buttons} (h : Waits start n m)
    (hstart : start.Paused) (hpending : start.cpu.registers.imePending = false)
    (hheld : buttons.bits ≠ 0) : ∃ woken : Machine σ, (m.hold buttons).step = woken.step ∧
      RunsAt start start.cpu.registers.pc woken ∧ woken.bus.speed = start.bus.speed ∧
      woken.frameCycles = start.frameCycles + 4 * n := by
  obtain ⟨hcpu, ⟨ppu, timer, joypad, serial, dma, interrupts, hbus⟩, -, hsum⟩ := h
  have hcpu' : m.core.cpu = _ := hcpu
  have hbus' : m.core.bus = _ := hbus
  have hruns : RunsAt start start.cpu.registers.pc
      { m.hold buttons with core := (m.hold buttons).core.woken } := by
    refine ⟨⟨start.cpu.cycles + 4 * n, ?_⟩, ?_, ?_⟩
    · change { m.core.cpu with stopped := false } = _
      rw [hcpu']
    · change m.core.bus.model = _
      rw [hbus']
    · change m.core.bus.cartridge = _
      rw [hbus']
  have hspeed : m.core.bus.speed = start.bus.speed := by rw [hbus']
  have hstopped : m.core.cpu.stopped = true := by
    rw [hcpu']
    exact hstart.stopped
  have hcore := Core.step_of_held (hruns.running hstart hpending) hstopped hheld
  exact ⟨_, step_congr hcore rfl, hruns, hspeed, hsum⟩

theorem RunsAt.arms {start : Machine σ} {pc : UInt16} {i : Instruction} (h : RunsAt start pc m)
    (hrun : Core.Running m.core.cpu) (hfetch : m.core.fetch = (i, m.core))
    (hop : i.operation = .storeAHigh) (hregister : highPage i.first = 0xFF4D)
    (hcolor : start.bus.model.isColor) (ha : start.cpu.registers.a &&& 1 ≠ 0)
    (hroom : m.frameCycles + 12 < m.bus.speed.frameBudget) :
    RunsAt start i.next m.step.1 ∧ m.step.1.bus.speedPrimed = true ∧
      m.step.1.bus.speed = m.bus.speed ∧ m.step.1.frameCycles = m.frameCycles + 12 := by
  obtain ⟨⟨cycles, hcpu⟩, hmodel, hcartridge⟩ := h
  have hcpu' : m.core.cpu = _ := hcpu
  have hcore := Core.step_storeAHigh hrun hfetch hop
  have hbit : (m.core.cpu.registers.a &&& 1 != 0) = true := by
    rw [hcpu']
    simpa using ha
  rw [hregister, Bus.write_speed_register (hmodel ▸ hcolor), hbit] at hcore
  obtain ⟨hnext, hsum, ppu, timer, serial, dma, interrupts, hbus, -⟩ := step_within hcore hroom
  rw [hcpu'] at hnext
  rw [hbus]
  exact ⟨⟨⟨_, hnext⟩, by rw [hbus]; exact hmodel, by rw [hbus]; exact hcartridge⟩, rfl, rfl, hsum⟩

theorem RunsAt.switches {start : Machine σ} {pc : UInt16} {i : Instruction} (h : RunsAt start pc m)
    (hrun : Core.Running m.core.cpu) (hfetch : m.core.fetch = (i, m.core))
    (hop : i.operation = .stop) (hcolor : start.bus.model.isColor) (hprimed : m.bus.speedPrimed)
    (hroom : m.frameCycles + 4 < m.bus.speed.frameBudget) :
    RunsAt start i.next m.step.1 ∧ m.step.1.bus.speed = m.bus.speed.other ∧
      m.step.1.frameCycles = m.frameCycles + 4 := by
  obtain ⟨⟨cycles, hcpu⟩, hmodel, hcartridge⟩ := h
  have hcpu' : m.core.cpu = _ := hcpu
  have hcore := Core.step_stop_switch hrun hfetch hop (hmodel ▸ hcolor) hprimed
  obtain ⟨hnext, hsum, ppu, timer, serial, dma, interrupts, hbus, -⟩ := step_within hcore hroom
  rw [hcpu'] at hnext
  rw [hbus]
  exact ⟨⟨⟨_, hnext⟩, by rw [hbus]; exact hmodel, by rw [hbus]; exact hcartridge⟩, rfl, hsum⟩

omit [ExternalMemory σ] in
theorem RunsAt.hold {start : Machine σ} {pc : UInt16} (h : RunsAt start pc m) (buttons : Buttons) :
    RunsAt start pc (m.hold buttons) := ⟨h.cpu, h.model, h.cartridge⟩

end Machine
end Handheld
