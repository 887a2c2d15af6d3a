import Handheld.Bus
import Handheld.Proofs.Dma.Copies
import Handheld.Proofs.Ppu.Blank

/-!
What can happen on a bus, and what of it reaches the picture unit and the transfers. A machine does
nothing to its bus but perform events, so what holds after all events holds whatever a program does.
-/

namespace Handheld.Bus

/-- A unit cycle, an access by the processor, the sound unit catching up, or a change of the buttons
that are held. -/
inductive Event where
  | cycle
  | read (address : UInt16)
  | write (address : UInt16) (v : UInt8)
  | acknowledge (irq : Interrupt)
  | sampleButtons
  | resetDivider
  | switchSpeed
  | fault (f : Fault)
  | renderSound (cycles : Nat)
  | hold (buttons : Buttons)

namespace Event

def isCycle : Event → Bool
  | .cycle => true
  | _ => false

def ofProcessor : Event → Bool
  | .cycle | .renderSound _ | .hold _ => false
  | _ => true

def keepsOn : Event → Bool
  | .write address v => (Ppu.Action.writeRegister address v).keepsOn
  | _ => true

/-- The event starts, restarts or cancels a transfer to video memory. -/
def controlsTransfer : Event → Bool
  | .write address _ => address == 0xFF55
  | _ => false

def sets (place : CopyEnd) : Event → Bool
  | .write address _ => place.registers.contains address
  | _ => false

theorem kind (e : Event) : e = .cycle ∨ (∃ address v, e = .write address v) ∨
    (e.isCycle = false ∧ ∀ address v, e ≠ .write address v) := by
  cases e with
  | cycle => exact .inl rfl
  | write address v => exact .inr (.inl ⟨address, v, rfl⟩)
  | _ => exact .inr (.inr ⟨rfl, fun _ _ h => by cases h⟩)

theorem eq_cycle {e : Event} (h : e.isCycle) : e = .cycle := by
  cases e with
  | cycle => rfl
  | _ => cases h

end Event

variable {σ : Type} [ExternalMemory σ]

def perform (b : Bus σ) : Event → Bus σ
  | .cycle => b.cycle
  | .read address => (b.read address).2
  | .write address v => b.write address v
  | .acknowledge irq => { b with interrupts := b.interrupts.acknowledge irq }
  | .sampleButtons => b.syncJoypad
  | .resetDivider => b.setDivider 0
  | .switchSpeed => b.switchSpeed.1
  | .fault f => b.recordFault f
  | .renderSound cycles => { b with apu := b.apu.step cycles }
  | .hold buttons => { b with held := buttons }

def performAll (b : Bus σ) (events : List Event) : Bus σ := events.foldl perform b

def cyclesOf (events : List Event) : Nat := events.countP Event.isCycle

@[simp] theorem performAll_nil (b : Bus σ) : b.performAll [] = b := rfl

@[simp] theorem performAll_cons (b : Bus σ) (e : Event) (rest : List Event) :
    b.performAll (e :: rest) = (b.perform e).performAll rest := rfl

theorem performAll_append (b : Bus σ) (first second : List Event) :
    b.performAll (first ++ second) = (b.performAll first).performAll second := List.foldl_append

@[simp] theorem cyclesOf_nil : cyclesOf [] = 0 := rfl

@[simp] theorem cyclesOf_cycle (rest : List Event) :
    cyclesOf (.cycle :: rest) = cyclesOf rest + 1 := List.countP_cons_of_pos rfl

theorem cyclesOf_other {e : Event} (h : e.isCycle = false) (rest : List Event) :
    cyclesOf (e :: rest) = cyclesOf rest := List.countP_cons_of_neg (by simp [h])

@[simp] theorem cyclesOf_append (first second : List Event) :
    cyclesOf (first ++ second) = cyclesOf first + cyclesOf second := List.countP_append

theorem cyclesOf_replicate (n : Nat) : cyclesOf (List.replicate n .cycle) = n := by
  simp [cyclesOf, List.countP_replicate, Event.isCycle]

theorem performAll_invariant {I : Bus σ → Prop} {events : List Event} {b : Bus σ} (h : I b)
    (hstep : ∀ b e, e ∈ events → I b → I (b.perform e)) : I (b.performAll events) := by
  induction events generalizing b with
  | nil => exact h
  | cons e rest ih =>
    exact ih (hstep b e (by simp) h) fun b e he hb => hstep b e (by simp [he]) hb

/-- The number of the horizontal blank in progress. -/
def blank (b : Bus σ) : Option Nat := DmaBus.hblank b

def copies (b : Bus σ) : List VramCopy := b.dma.copies b.stepPpu.blank

/-- What some events copy to video memory. -/
def copiesOver (b : Bus σ) : List Event → List VramCopy
  | [] => []
  | .cycle :: rest => b.copies ++ b.cycle.copiesOver rest
  | e :: rest => (b.perform e).copiesOver rest

theorem performCopies_bus (cs : List VramCopy) (b : Bus σ) :
    ∃ vram, VramCopy.performAll cs b = { b with ppu := { b.ppu with vram } } := by
  induction cs generalizing b with
  | nil => exact ⟨_, rfl⟩
  | cons c rest ih =>
    obtain ⟨vram, h⟩ := ih (c.perform b)
    exact ⟨vram, h⟩

theorem stepOam_bus (d : Dma) (b : Bus σ) :
    ∃ oam, (d.stepOam b).2 = { b with ppu := { b.ppu with oam } } := by
  unfold Dma.stepOam
  split
  · exact ⟨_, rfl⟩
  · exact ⟨_, rfl⟩

theorem stepOam_hblank (d : Dma) (b : Bus σ) : DmaBus.hblank (d.stepOam b).2 = b.blank := by
  obtain ⟨oam, h⟩ := stepOam_bus d b
  rw [h]
  rfl

theorem stepTransfers_bus (d : Dma) (b : Bus σ) :
    ∃ vram oam, (d.step b).2 = { b with ppu := { b.ppu with vram, oam } } := by
  obtain ⟨oam, hoam⟩ := stepOam_bus d b
  obtain ⟨vram, hvram⟩ :=
    performCopies_bus (d.copies (DmaBus.hblank (d.stepOam b).2)) (d.stepOam b).2
  refine ⟨vram, oam, ?_⟩
  rw [Dma.step_bus, hvram, hoam]

/-- What a cycle is to the picture unit and the transfers. -/
theorem cycle_bus (b : Bus σ) : ∃ timer serial interrupts vram oam, b.cycle =
    { b with
      ppu := { b.ppu.step.1 with vram, oam }
      dma := (b.dma.step b.stepPpu.stepTimer).1
      timer, serial, interrupts } := by
  obtain ⟨vram, oam, hdma⟩ := stepTransfers_bus b.dma b.stepPpu.stepTimer
  have hstep : b.stepPpu.stepTimer.stepDma =
      { (b.dma.step b.stepPpu.stepTimer).2 with
        dma := (b.dma.step b.stepPpu.stepTimer).1 } := rfl
  rw [hdma] at hstep
  rw [cycle, stepSerial, hstep]
  exact ⟨_, _, _, vram, oam, rfl⟩

theorem cycle_progress (b : Bus σ) : b.cycle.ppu.progress = b.ppu.step.1.progress := by
  obtain ⟨timer, serial, interrupts, vram, oam, h⟩ := b.cycle_bus
  rw [h]
  rfl

theorem cycle_dot (b : Bus σ) : b.cycle.ppu.dot = b.ppu.step.1.dot := by
  obtain ⟨timer, serial, interrupts, vram, oam, h⟩ := b.cycle_bus
  rw [h]

theorem cycle_lcdEnabled (b : Bus σ) : b.cycle.ppu.lcdEnabled = b.ppu.lcdEnabled := by
  obtain ⟨timer, serial, interrupts, vram, oam, h⟩ := b.cycle_bus
  rw [h]
  exact b.ppu.step_lcdEnabled

theorem cycle_dma (b : Bus σ) : b.cycle.dma = (b.dma.step b.stepPpu.stepTimer).1 := by
  obtain ⟨timer, serial, interrupts, vram, oam, h⟩ := b.cycle_bus
  rw [h]

/-- Video memory after a cycle is what its copies make of it. -/
theorem cycle_vram (b : Bus σ) : b.cycle.ppu.vram =
    (VramCopy.performAll b.copies (b.dma.stepOam b.stepPpu.stepTimer).2).ppu.vram := by
  have hbus : (b.dma.step b.stepPpu.stepTimer).2 =
      VramCopy.performAll b.copies (b.dma.stepOam b.stepPpu.stepTimer).2 := by
    rw [Dma.step_bus, stepOam_hblank]
    rfl
  rw [← hbus]
  rfl

theorem blank_eq (b : Bus σ) : b.blank =
    if b.ppu.lcdEnabled && b.ppu.inHBlank then some b.ppu.hblankCount else none := rfl

theorem stepPpu_blank {b : Bus σ} (hon : b.ppu.lcdEnabled) : b.stepPpu.blank =
    if b.cycle.ppu.mode = .hblank then some b.cycle.ppu.hblankCount else none := by
  have hmode : b.cycle.ppu.mode = b.ppu.step.1.mode := congrArg Ppu.Progress.mode b.cycle_progress
  have hcount : b.cycle.ppu.hblankCount = b.ppu.step.1.hblankCount :=
    congrArg Ppu.Progress.hblankCount b.cycle_progress
  have hon' : b.ppu.step.1.lcdEnabled = true := b.ppu.step_lcdEnabled.trans hon
  have hblank : b.stepPpu.blank = if b.ppu.step.1.lcdEnabled && b.ppu.step.1.inHBlank then
      some b.ppu.step.1.hblankCount else none := rfl
  rw [hblank, hmode, hcount, hon', Bool.true_and]
  simp [Ppu.inHBlank]

omit [ExternalMemory σ] in
theorem readIo_frame (b : Bus σ) (address : UInt16) :
    ∃ joypad interrupts fault, (b.readIo address).2 = { b with joypad, interrupts, fault } := by
  unfold readIo
  split
  case h_12 =>
    unfold recordFault
    dsimp only
    split <;> exact ⟨_, _, _, rfl⟩
  all_goals exact ⟨_, _, _, rfl⟩

theorem read_frame (b : Bus σ) (address : UInt16) :
    ∃ joypad interrupts fault, (b.read address).2 = { b with joypad, interrupts, fault } := by
  unfold read
  split
  · exact b.readIo_frame address
  · exact ⟨_, _, _, rfl⟩

theorem write_ppu (b : Bus σ) (address : UInt16) (v : UInt8) :
    (b.write address v).ppu = b.ppu ∨ ∃ a : Ppu.Action, a ≠ .step ∧
      ((Event.write address v).keepsOn → a.keepsOn) ∧
      (b.write address v).ppu = b.ppu.perform a := by
  unfold write
  split
  case h_2 => exact .inr ⟨.writeVram address v, by simp, fun _ => rfl, rfl⟩
  case h_4 => exact .inr ⟨.writeOam (address - 0xFE00).toNat v, by simp, fun _ => rfl, rfl⟩
  case h_6 =>
    unfold writeIo
    split
    case h_6 => exact .inr ⟨.writeRegister address v, by simp, id, rfl⟩
    case h_12 =>
      unfold recordFault
      split <;> exact .inl rfl
    all_goals exact .inl rfl
  all_goals exact .inl rfl

theorem write_dma (b : Bus σ) (address : UInt16) (v : UInt8) :
    (b.write address v).dma = b.dma ∨ (b.write address v).dma = b.dma.write address v := by
  unfold write
  split
  case h_6 =>
    unfold writeIo
    split
    case h_7 => exact .inr rfl
    case h_8 => exact .inr rfl
    case h_12 =>
      unfold recordFault
      split <;> exact .inl rfl
    all_goals exact .inl rfl
  all_goals exact .inl rfl

theorem write_transfer_register {b : Bus σ} {address : UInt16} (v : UInt8)
    (hregion : Region.ofAddress address = .io)
    (htarget : IoTarget.ofAddress b.model address = .vramDma) :
    b.write address v = { b with dma := b.dma.write address v } := by
  simp only [Bus.write, hregion, writeIo, htarget]

theorem read_control {b : Bus σ} (hcolor : b.model.isColor) :
    (b.read 0xFF55).1 = b.dma.readControl := by
  have hregion : Region.ofAddress 0xFF55 = .io := by decide
  have htarget : IoTarget.ofAddress b.model 0xFF55 = .vramDma := by
    simp [IoTarget.ofAddress, hcolor]
  simp only [Bus.read, hregion, if_true, readIo, htarget]
  rfl

theorem perform_other {b : Bus σ} {e : Event} (hcycle : e.isCycle = false)
    (hwrite : ∀ address v, e ≠ .write address v) :
    (b.perform e).ppu = b.ppu ∧ (b.perform e).dma = b.dma := by
  cases e with
  | cycle => cases hcycle
  | write address v => exact absurd rfl (hwrite address v)
  | read address =>
    obtain ⟨joypad, interrupts, fault, h⟩ := b.read_frame address
    rw [perform, h]
    exact ⟨rfl, rfl⟩
  | switchSpeed =>
    rw [perform, Bus.switchSpeed]
    split <;> exact ⟨rfl, rfl⟩
  | fault f =>
    rw [perform, recordFault]
    split <;> exact ⟨rfl, rfl⟩
  | acknowledge | sampleButtons | resetDivider | renderSound | hold => exact ⟨rfl, rfl⟩

/-- To the picture unit an event is one of its actions, or nothing at all. -/
theorem perform_ppu (b : Bus σ) (e : Event) :
    ((b.perform e).ppu.progress = b.ppu.progress ∧ (b.perform e).ppu.dot = b.ppu.dot ∧
        (b.perform e).ppu.lcdEnabled = b.ppu.lcdEnabled) ∨
      ∃ a : Ppu.Action, (a = .step ↔ e.isCycle) ∧ (e.keepsOn → a.keepsOn) ∧
        (b.perform e).ppu.progress = (b.ppu.perform a).progress ∧
        (b.perform e).ppu.dot = (b.ppu.perform a).dot ∧
        (b.perform e).ppu.lcdEnabled = (b.ppu.perform a).lcdEnabled := by
  rcases e.kind with rfl | ⟨address, v, rfl⟩ | ⟨hcycle, hwrite⟩
  · exact .inr ⟨.step, by simp [Event.isCycle], fun _ => rfl, b.cycle_progress, b.cycle_dot,
      b.cycle_lcdEnabled.trans b.ppu.step_lcdEnabled.symm⟩
  · rcases b.write_ppu address v with hsame | ⟨a, ha, hkeep, hppu⟩
    · exact .inl (by rw [perform, hsame]; exact ⟨rfl, rfl, rfl⟩)
    · refine .inr ⟨a, by simp [ha, Event.isCycle], hkeep, ?_⟩
      rw [perform, hppu]
      exact ⟨rfl, rfl, rfl⟩
  · obtain ⟨hppu, -⟩ := perform_other (b := b) hcycle hwrite
    exact .inl (by rw [hppu]; exact ⟨rfl, rfl, rfl⟩)

theorem perform_scheduled {b : Bus σ} (h : b.ppu.Scheduled) (e : Event) :
    (b.perform e).ppu.Scheduled ∧ b.ppu.hblankCount ≤ (b.perform e).ppu.hblankCount := by
  rcases b.perform_ppu e with ⟨hprogress, hdot, hon⟩ | ⟨a, -, -, hprogress, hdot, hon⟩
  · exact ⟨fun hon' => (h (hon.symm.trans hon')).of_frame hprogress hdot,
      Nat.le_of_eq (congrArg Ppu.Progress.hblankCount hprogress).symm⟩
  · obtain ⟨hscheduled, hcount⟩ := Ppu.perform_scheduled h a
    exact ⟨fun hon' => (hscheduled (hon.symm.trans hon')).of_frame hprogress hdot,
      Nat.le_trans hcount (Nat.le_of_eq (congrArg Ppu.Progress.hblankCount hprogress).symm)⟩

theorem performAll_hblankCount_le {b : Bus σ} (h : b.ppu.Scheduled) (events : List Event) :
    b.ppu.hblankCount ≤ (b.performAll events).ppu.hblankCount := by
  induction events generalizing b with
  | nil => exact Nat.le_refl _
  | cons e rest ih =>
    obtain ⟨hscheduled, hle⟩ := perform_scheduled h e
    exact Nat.le_trans hle (ih hscheduled)

theorem perform_lcdEnabled {b : Bus σ} {e : Event} (hon : b.ppu.lcdEnabled) (hkeep : e.keepsOn) :
    (b.perform e).ppu.lcdEnabled = true := by
  rcases b.perform_ppu e with ⟨-, -, hsame⟩ | ⟨a, -, ha, -, -, hsame⟩
  · exact hsame.trans hon
  · exact hsame.trans (Ppu.perform_lcdEnabled hon (ha hkeep))

theorem perform_still {b : Bus σ} {e : Event} (hon : b.ppu.lcdEnabled) (hkeep : e.keepsOn)
    (hcycle : e.isCycle = false) :
    (b.perform e).ppu.progress = b.ppu.progress ∧ (b.perform e).ppu.dot = b.ppu.dot := by
  rcases b.perform_ppu e with ⟨hprogress, hdot, -⟩ | ⟨a, hstep, ha, hprogress, hdot, -⟩
  · exact ⟨hprogress, hdot⟩
  · have hwrite : a ≠ .step := by simp [hstep, hcycle]
    obtain ⟨hsame, hdot', -⟩ := Ppu.perform_write_frame hon (ha hkeep) hwrite
    exact ⟨hprogress.trans hsame, hdot.trans hdot'⟩

theorem perform_dma {b : Bus σ} {e : Event} (hcycle : e.isCycle = false) :
    (e.controlsTransfer = false → (b.perform e).dma.vram = b.dma.vram) ∧
      ∀ place, e.sets place = false → (b.perform e).dma.place place = b.dma.place place := by
  rcases e.kind with rfl | ⟨address, v, rfl⟩ | ⟨-, hwrite⟩
  · cases hcycle
  · rcases b.write_dma address v with hsame | hdma
    · rw [perform, hsame]
      exact ⟨fun _ => rfl, fun _ _ => rfl⟩
    · rw [perform, hdma]
      exact ⟨fun h => b.dma.write_vram v (by simpa [Event.controlsTransfer] using h),
        fun _ h => b.dma.write_place v h⟩
  · obtain ⟨-, hdma⟩ := perform_other (b := b) hcycle hwrite
    rw [hdma]
    exact ⟨fun _ => rfl, fun _ _ => rfl⟩

def made (b : Bus σ) : Model × Header := (b.model, b.cartridge.header)

theorem write_made (b : Bus σ) (address : UInt16) (v : UInt8) :
    (b.write address v).made = b.made := by
  unfold write
  split
  case h_1 => exact congrArg (b.model, ·) (b.cartridge.write_header address v)
  case h_6 =>
    unfold writeIo
    split
    case h_12 =>
      unfold recordFault
      split <;> rfl
    all_goals rfl
  all_goals rfl

theorem perform_made (b : Bus σ) (e : Event) : (b.perform e).made = b.made := by
  cases e with
  | cycle =>
    obtain ⟨timer, serial, interrupts, vram, oam, h⟩ := b.cycle_bus
    rw [perform, h]
    rfl
  | read address =>
    obtain ⟨joypad, interrupts, fault, h⟩ := b.read_frame address
    rw [perform, h]
    rfl
  | write address v => exact b.write_made address v
  | switchSpeed =>
    rw [perform, Bus.switchSpeed]
    split <;> rfl
  | fault f =>
    rw [perform, recordFault]
    split <;> rfl
  | acknowledge | sampleButtons | resetDivider | renderSound | hold => rfl

theorem performAll_made (b : Bus σ) (events : List Event) :
    (b.performAll events).made = b.made :=
  performAll_invariant (I := fun b' => b'.made = b.made) rfl
    fun b' e _ h => (b'.perform_made e).trans h

theorem write_model (b : Bus σ) (address : UInt16) (v : UInt8) :
    (b.write address v).model = b.model := congrArg Prod.fst (b.write_made address v)

theorem performAll_model (b : Bus σ) (events : List Event) :
    (b.performAll events).model = b.model := congrArg Prod.fst (b.performAll_made events)

theorem copiesOver_other {b : Bus σ} {e : Event} (hcycle : e.isCycle = false)
    (rest : List Event) : b.copiesOver (e :: rest) = (b.perform e).copiesOver rest := by
  cases e with
  | cycle => cases hcycle
  | _ => rfl

theorem copiesOver_cycle (b : Bus σ) (rest : List Event) :
    b.copiesOver (.cycle :: rest) = b.copies ++ b.cycle.copiesOver rest := rfl

theorem copiesOver_append (b : Bus σ) (first second : List Event) :
    b.copiesOver (first ++ second) =
      b.copiesOver first ++ (b.performAll first).copiesOver second := by
  induction first generalizing b with
  | nil => rfl
  | cons e rest ih =>
    rw [List.cons_append]
    cases hcycle : e.isCycle with
    | true =>
      rw [e.eq_cycle hcycle, copiesOver_cycle, copiesOver_cycle, ih, List.append_assoc]
      rfl
    | false =>
      rw [copiesOver_other hcycle, copiesOver_other hcycle, ih]
      rfl

end Handheld.Bus
