import Mathlib.Logic.Basic
import Handheld.Proofs.Machine.Reset
import Handheld.Proofs.Machine.Reachable

/-!
What only a color console has, on a monochrome one. It is all there, but nothing a program does
reaches it: it stays as it was at the start, and its registers read as ones and ignore writes.
-/

namespace Handheld

def colorRegisters : List UInt16 :=
  [0xFF4D, 0xFF4F, 0xFF51, 0xFF52, 0xFF53, 0xFF54, 0xFF55, 0xFF68, 0xFF69, 0xFF6A, 0xFF6B, 0xFF70]

namespace Ppu

/-- The color part of the unit is as in a unit that was just made. -/
structure Monochrome (p : Ppu) : Prop where
  model : p.model = .monochrome
  bank : p.vramBank = 0
  background : p.backgroundPalettes = {}
  objects : p.objectPalettes = {}

theorem Monochrome.of_contents {p q : Ppu} (h : p.Monochrome) (heq : q.contents = p.contents) :
    q.Monochrome where
  model := (congrArg Contents.model heq).trans h.model
  bank := (congrArg Contents.vramBank heq).trans h.bank
  background := (congrArg Contents.backgroundPalettes heq).trans h.background
  objects := (congrArg Contents.objectPalettes heq).trans h.objects

theorem Monochrome.step {p : Ppu} (h : p.Monochrome) : p.step.1.Monochrome :=
  h.of_contents p.step_contents

theorem Monochrome.writeControl {p : Ppu} (h : p.Monochrome) (v : UInt8) :
    (p.writeControl v).Monochrome := by
  obtain ⟨hmodel, hbank, hbackground, hobjects⟩ := h
  unfold Ppu.writeControl
  dsimp only
  split
  · exact ⟨hmodel, hbank, hbackground, hobjects⟩
  split <;> exact ⟨hmodel, hbank, hbackground, hobjects⟩

theorem Monochrome.writeRegister {p : Ppu} (h : p.Monochrome) (a : UInt16) (v : UInt8) :
    (p.writeRegister a v).Monochrome := by
  unfold Ppu.writeRegister
  split
  case h_1 => exact h.writeControl v
  case h_12 => simpa [h.model, Model.isColor] using h
  all_goals exact ⟨h.model, h.bank, h.background, h.objects⟩

end Ppu

namespace Dma

structure VramIdle (d : Dma) : Prop where
  vram : d.vram = none
  hold : d.hold = 0

theorem VramIdle.romBusy {d : Dma} (h : d.VramIdle) : d.romBusy = false := by
  simp [Dma.romBusy, h.vram, h.hold]

theorem VramIdle.write {d : Dma} (h : d.VramIdle) {a : UInt16} (ha : a ≠ 0xFF55) (v : UInt8) :
    (d.write a v).VramIdle :=
  ⟨(d.write_vram v ha).trans h.vram, (d.write_hold a v).trans h.hold⟩

theorem VramIdle.step {β : Type} [DmaBus β] {d : Dma} (h : d.VramIdle) (bus : β) :
    (d.step bus).1.VramIdle := by
  rw [step_of_idle bus h.vram]
  exact ⟨h.vram, by simp [h.hold]⟩

end Dma

namespace Bus

variable {σ : Type} [ExternalMemory σ]

structure Monochrome (b : Bus σ) : Prop where
  model : b.model = .monochrome
  ppu : b.ppu.Monochrome
  transfer : b.dma.VramIdle
  speed : b.speed = .normal
  unprimed : b.speedPrimed = false
  bank : b.wramBank = 1

theorem target_monochrome {model : Model} (h : model = .monochrome) (a : UInt16) :
    IoTarget.ofAddress model a ≠ .speed ∧ IoTarget.ofAddress model a ≠ .wramBank ∧
      IoTarget.ofAddress model a ≠ .vramDma ∧
      (IoTarget.ofAddress model a = .oamDma → a ≠ 0xFF55) := by
  subst h
  have hcolor : Model.isColor .monochrome = false := rfl
  refine ⟨?_, ?_, ?_, ?_⟩
  iterate 3 simp [IoTarget.ofAddress, hcolor, ite_eq_iff]
  rintro h rfl
  cases h

omit [ExternalMemory σ] in
theorem Monochrome.writeIo {b : Bus σ} (h : b.Monochrome) (a : UInt16) (v : UInt8) :
    (b.writeIo a v).Monochrome := by
  obtain ⟨hspeed, hbank, htransfer, hpage⟩ := target_monochrome h.model a
  unfold Bus.writeIo
  cases htarget : IoTarget.ofAddress b.model a with
  | speed => exact absurd htarget hspeed
  | wramBank => exact absurd htarget hbank
  | vramDma => exact absurd htarget htransfer
  | oamDma =>
    exact ⟨h.model, h.ppu, h.transfer.write (hpage htarget) v, h.speed, h.unprimed, h.bank⟩
  | video => exact ⟨h.model, h.ppu.writeRegister a v, h.transfer, h.speed, h.unprimed, h.bank⟩
  | unmapped =>
    unfold recordFault
    dsimp only
    split
    · exact ⟨h.model, h.ppu, h.transfer, h.speed, h.unprimed, h.bank⟩
    · exact h
  | inert => exact h
  | joypad | serial | timer | requests | sound =>
    exact ⟨h.model, h.ppu, h.transfer, h.speed, h.unprimed, h.bank⟩

theorem Monochrome.write {b : Bus σ} (h : b.Monochrome) (a : UInt16) (v : UInt8) :
    (b.write a v).Monochrome := by
  unfold Bus.write
  cases Region.ofAddress a with
  | io => exact h.writeIo a v
  | vram | oam => exact { h with ppu := ⟨h.ppu.model, h.ppu.bank, h.ppu.background, h.ppu.objects⟩ }
  | unusable => exact h
  | cartridge | wram | hram | enable => exact { h with }

theorem Monochrome.cycle {b : Bus σ} (h : b.Monochrome) : b.cycle.Monochrome := by
  obtain ⟨timer, serial, interrupts, vram, oam, hcycle⟩ := b.cycle_bus
  have hppu := h.ppu.step
  rw [hcycle]
  exact { h with
    ppu := ⟨hppu.model, hppu.bank, hppu.background, hppu.objects⟩
    transfer := h.transfer.step _ }

theorem Monochrome.perform {b : Bus σ} (h : b.Monochrome) (e : Event) :
    (b.perform e).Monochrome := by
  cases e with
  | cycle => exact h.cycle
  | write a v => exact h.write a v
  | read a =>
    obtain ⟨joypad, interrupts, fault, hread⟩ := b.read_frame a
    rw [Bus.perform, hread]
    exact { h with }
  | switchSpeed =>
    have hstays : b.switchSpeed = (b, false) := by simp [Bus.switchSpeed, h.model, Model.isColor]
    rw [Bus.perform, hstays]
    exact h
  | fault f =>
    rw [Bus.perform, recordFault]
    split
    · exact { h with }
    · exact h
  | acknowledge | sampleButtons | resetDivider | renderSound | hold => exact { h with }

theorem Monochrome.performAll {b : Bus σ} (h : b.Monochrome) (events : List Event) :
    (b.performAll events).Monochrome :=
  performAll_invariant h fun _ e _ hb => hb.perform e

theorem colorRegisters_target {a : UInt16} (ha : a ∈ colorRegisters) :
    Region.ofAddress a = .io ∧ (IoTarget.ofAddress .monochrome a = .inert ∨
      IoTarget.ofAddress .monochrome a = .video ∧ a ∈ [0xFF4F, 0xFF68, 0xFF69, 0xFF6A, 0xFF6B]) := by
  simp only [colorRegisters, List.mem_cons, List.not_mem_nil, or_false] at ha
  rcases ha with rfl | rfl | rfl | rfl | rfl | rfl | rfl | rfl | rfl | rfl | rfl | rfl <;> decide

/-- A register of a color console reads as ones, and whoever touches it changes nothing. -/
theorem Monochrome.register {b : Bus σ} (h : b.Monochrome) {a : UInt16} (ha : a ∈ colorRegisters) :
    b.read a = (0xFF, b) ∧ ∀ v, b.write a v = b := by
  obtain ⟨hregion, htarget⟩ := colorRegisters_target ha
  rw [← h.model] at htarget
  rcases htarget with htarget | ⟨htarget, hvideo⟩
  · simp [Bus.read, Bus.write, hregion, Bus.readIo, Bus.writeIo, htarget]
  · have hppu : b.ppu.readRegister a = 0xFF ∧ ∀ v, b.ppu.writeRegister a v = b.ppu := by
      simp only [List.mem_cons, List.not_mem_nil, or_false] at hvideo
      rcases hvideo with rfl | rfl | rfl | rfl | rfl <;>
        simp [Ppu.readRegister, Ppu.writeRegister, h.ppu.model, Model.isColor]
    simp [Bus.read, Bus.write, hregion, Bus.readIo, Bus.writeIo, htarget, hppu]

end Bus

namespace Machine

variable {σ : Type} [ExternalMemory σ]

omit [ExternalMemory σ] in
theorem applyShades_monochrome {b : Bus σ} (h : b.Monochrome) (s : MachineSettings) :
    (applyShades b s).Monochrome := by
  obtain ⟨hmodel, ⟨hppu, hbank, hbackground, hobjects⟩, htransfer, hspeed, hunprimed, hwork⟩ := h
  unfold applyShades
  split <;>
    exact ⟨hmodel, ⟨hppu, hbank, hbackground, hobjects⟩, htransfer, hspeed, hunprimed, hwork⟩

omit [ExternalMemory σ] in
theorem Started.monochrome {m : Machine σ} (h : m.Started) (hmodel : m.model = .monochrome) :
    m.bus.Monochrome := by
  cases h with
  | create cartridge settings =>
    have hmade := congrArg Prod.fst (applyShades_made
      (Bus.afterBoot { model := settings.model.resolve cartridge.header, cartridge }) settings)
    have hmodel : settings.model.resolve cartridge.header = .monochrome := hmade.symm.trans hmodel
    exact applyShades_monochrome ⟨hmodel, ⟨hmodel, rfl, rfl, rfl⟩, ⟨rfl, rfl⟩, rfl, rfl, rfl⟩ _
  | reset m =>
    have hmade := congrArg Prod.fst (applyShades_made m.bus.reset m.settings)
    have hmodel : m.bus.model = .monochrome := hmade.symm.trans hmodel
    refine applyShades_monochrome ?_ _
    unfold Bus.reset
    cases m.bus.ppu.video <;>
      exact ⟨hmodel, ⟨hmodel, rfl, rfl, rfl⟩, ⟨rfl, rfl⟩, rfl, rfl, rfl⟩

theorem Reachable.monochrome {m : Machine σ} (h : m.Reachable) (hmodel : m.model = .monochrome) :
    m.bus.Monochrome := by
  induction h with
  | start h => exact h.monochrome hmodel
  | @step m h ih =>
    have hbus := m.step_bus
    have hsame := congrArg Bus.model hbus
    rw [Bus.performAll_model] at hsame
    rw [hbus]
    exact (ih (hsame.symm.trans hmodel)).performAll _
  | @processorStep m h ih =>
    -- The same events of the processor, but none of the cycles that it takes.
    have hbus : m.bus.performAll m.core.stepAccesses = m.core.step.1.bus := m.core.step_accessed.1
    have hsame := congrArg Bus.model hbus
    rw [Bus.performAll_model] at hsame
    have hafter : (m.core.step.1.bus).Monochrome := by
      rw [← hbus]
      exact (ih (hsame.trans hmodel)).performAll _
    exact hafter
  | @perform m h e ih =>
    have hsame : (m.bus.perform e).model = m.bus.model := m.bus.performAll_model [e]
    exact (ih (hsame.symm.trans hmodel)).perform e

/-- Whatever a monochrome machine runs, what only a color console has stays as it was at the start:
the speed is normal and no switch of it is armed, the first banks are selected, the palettes are
blank, and no transfer to video memory is under way or holds the bus. Its registers read as ones,
and neither a read nor a write of one changes anything, the fault that is kept included. -/
theorem monochrome_runs_without_color {m : Machine σ} (h : m.Reachable)
    (hmodel : m.model = .monochrome) :
    let b := m.bus
    b.speed = .normal ∧ b.speedPrimed = false ∧ b.wramBank = 1 ∧ b.ppu.vramBank = 0 ∧
      b.ppu.backgroundPalettes = {} ∧ b.ppu.objectPalettes = {} ∧
      b.dma.vram = none ∧ b.dma.romBusy = false ∧
      ∀ a ∈ colorRegisters, b.read a = (0xFF, b) ∧ ∀ v, b.write a v = b := by
  intro b
  have hb : b.Monochrome := h.monochrome hmodel
  exact ⟨hb.speed, hb.unprimed, hb.bank, hb.ppu.bank, hb.ppu.background, hb.ppu.objects,
    hb.transfer.vram, hb.transfer.romBusy, fun _ => hb.register⟩

/-- A program that selects another bank of work memory, asks for a transfer and for the other speed
and stops: nothing of that happens, and it waits at normal speed. -/
theorem color_program_on_monochrome :
    let rom := List.replicate 0x100 0 ++ [0x3E, 0x01, 0xE0, 0x70, 0xE0, 0x55, 0xE0, 0x4D, 0x10]
    let cartridge := { Bus.bare.cartridge with rom := ⟨rom.toArray⟩ }
    let start := create cartridge { model := .forceMonochrome }
    let m := start.processorSteps 5
    m.Reachable ∧ m.model = .monochrome ∧ m.cpu.stopped ∧ m.bus.speed = .normal ∧
      m.bus.wramBank = 1 ∧ m.bus.dma.romBusy = false ∧ m.bus.read 0xFF70 = (0xFF, m.bus) := by
  intro rom cartridge start m
  have hreachable : m.Reachable := (Reachable.start (.create _ _)).processorSteps 5
  have hmodel : m.model = .monochrome := by decide +kernel
  have hstopped : m.cpu.stopped := by decide +kernel
  clear_value m
  obtain ⟨hspeed, -, hbank, -, -, -, -, hbusy, hregisters⟩ :=
    monochrome_runs_without_color hreachable hmodel
  exact ⟨hreachable, hmodel, hstopped, hspeed, hbank, hbusy,
    (hregisters 0xFF70 (by decide)).1⟩

end Machine
end Handheld
