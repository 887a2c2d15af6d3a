import Handheld.Ppu.Step

/-!
Runs of the picture unit: its dots, in any order with writes of its memories and registers. What a
line does in the course of its dots, the `Progress`, is out of reach of every write that leaves the
display on.
-/

namespace Handheld.Ppu

inductive Action where
  | step
  | writeVram (address : UInt16) (v : UInt8)
  | writeOam (i : Nat) (v : UInt8)
  | writeRegister (address : UInt16) (v : UInt8)
  deriving DecidableEq, Repr

def Action.keepsOn : Action → Bool
  | .writeRegister address v => address != 0xFF40 || v &&& 0x80 != 0
  | _ => true

def perform (p : Ppu) : Action → Ppu
  | .step => p.step.1
  | .writeVram address v => p.writeVram address v
  | .writeOam i v => p.writeOam i v
  | .writeRegister address v => p.writeRegister address v

def performAll (p : Ppu) (actions : List Action) : Ppu := actions.foldl perform p

def dotsOf (actions : List Action) : Nat := actions.count .step

@[simp] theorem performAll_nil (p : Ppu) : p.performAll [] = p := rfl

@[simp] theorem performAll_cons (p : Ppu) (a : Action) (rest : List Action) :
    p.performAll (a :: rest) = (p.perform a).performAll rest := rfl

theorem performAll_append (p : Ppu) (first second : List Action) :
    p.performAll (first ++ second) = (p.performAll first).performAll second :=
  List.foldl_append

@[simp] theorem dotsOf_nil : dotsOf [] = 0 := rfl

@[simp] theorem dotsOf_step (rest : List Action) : dotsOf (.step :: rest) = dotsOf rest + 1 :=
  List.count_cons_self

theorem dotsOf_write {a : Action} (h : a ≠ .step) (rest : List Action) :
    dotsOf (a :: rest) = dotsOf rest := List.count_cons_of_ne h

@[simp] theorem dotsOf_append (first second : List Action) :
    dotsOf (first ++ second) = dotsOf first + dotsOf second := List.count_append

structure Progress where
  ly : UInt8
  mode : Mode
  transfer : Transfer
  fetcher : Fetcher
  lastTransferCycles : Nat
  hblankCount : Nat
  deriving DecidableEq, Repr

def progress (p : Ppu) : Progress where
  ly := p.ly
  mode := p.mode
  transfer := p.transfer
  fetcher := p.fetcher
  lastTransferCycles := p.lastTransferCycles
  hblankCount := p.hblankCount

structure Contents where
  model : Model
  registers : LcdRegisters
  vram : Vram
  vramBank : Nat
  oam : Oam
  backgroundPalettes : PaletteRam
  objectPalettes : PaletteRam

def contents (p : Ppu) : Contents where
  model := p.model
  registers := p.registers
  vram := p.vram
  vramBank := p.vramBank
  oam := p.oam
  backgroundPalettes := p.backgroundPalettes
  objectPalettes := p.objectPalettes

theorem writeControl_of_same {p : Ppu} {v : UInt8} (h : p.lcdEnabled = (v &&& 0x80 != 0)) :
    p.writeControl v = { p with registers := { p.registers with lcdc := v } } := by
  have hnext : Ppu.lcdEnabled { p with registers := { p.registers with lcdc := v } } =
    p.lcdEnabled := h.symm
  simp [writeControl, hnext]

theorem writeControl_of_on {p : Ppu} {v : UInt8} (hp : p.lcdEnabled) (hv : v &&& 0x80 != 0) :
    p.writeControl v = { p with registers := { p.registers with lcdc := v } } :=
  writeControl_of_same (hp.trans hv.symm)

theorem writeControl_switchOn {p : Ppu} {v : UInt8} (hp : p.lcdEnabled = false)
    (hv : v &&& 0x80 != 0) :
    p.writeControl v = enableLcd { p with registers := { p.registers with lcdc := v } } := by
  have hon : Ppu.lcdEnabled { p with registers := { p.registers with lcdc := v } } = true := hv
  simp [writeControl, hp, hon]

theorem writeControl_of_off {p : Ppu} {v : UInt8} (hp : p.lcdEnabled = false)
    (hv : v &&& 0x80 != 0) : (p.writeControl v).lcdEnabled ∧ (p.writeControl v).dot = 0 := by
  rw [writeControl_switchOn hp hv]
  exact ⟨hv, rfl⟩

theorem writeControl_off (p : Ppu) {v : UInt8} (hv : (v &&& 0x80 != 0) = false) :
    (p.writeControl v).lcdEnabled = false := by
  have hoff : Ppu.lcdEnabled { p with registers := { p.registers with lcdc := v } } = false := hv
  simp only [writeControl, hoff, Bool.not_false, Bool.and_true, Bool.and_false]
  split <;> exact hoff

theorem writeControl_hblankCount (p : Ppu) (v : UInt8) :
    (p.writeControl v).hblankCount = p.hblankCount := by
  unfold writeControl
  dsimp only
  split
  · rfl
  split <;> rfl

structure SameBut (address : UInt16) (r r' : LcdRegisters) : Prop where
  lcdc : address ≠ 0xFF40 → r'.lcdc = r.lcdc
  stat : address ≠ 0xFF41 → r'.stat = r.stat
  scy : address ≠ 0xFF42 → r'.scy = r.scy
  scx : address ≠ 0xFF43 → r'.scx = r.scx
  lyc : address ≠ 0xFF45 → r'.lyc = r.lyc
  bgp : address ≠ 0xFF47 → r'.bgp = r.bgp
  obp0 : address ≠ 0xFF48 → r'.obp0 = r.obp0
  obp1 : address ≠ 0xFF49 → r'.obp1 = r.obp1
  wy : address ≠ 0xFF4A → r'.wy = r.wy
  wx : address ≠ 0xFF4B → r'.wx = r.wx

theorem writeRegister_changes (p : Ppu) {address : UInt16} (v : UInt8) (h : address ≠ 0xFF40) :
    ∃ registers vramBank backgroundPalettes objectPalettes,
      p.writeRegister address v =
        { p with registers, vramBank, backgroundPalettes, objectPalettes } ∧
      SameBut address p.registers registers := by
  unfold writeRegister
  split
  case h_1 => exact absurd rfl h
  case h_12 =>
    have hsame : SameBut address p.registers p.registers := by constructor <;> exact fun _ => rfl
    split
    · unfold writeColorRegister
      split <;> exact ⟨_, _, _, _, rfl, hsame⟩
    · exact ⟨_, _, _, _, rfl, hsame⟩
  all_goals
    refine ⟨_, _, _, _, rfl, ?_⟩
    constructor <;> intro hother <;> first | rfl | exact absurd rfl hother

theorem writeRegister_other (p : Ppu) {address : UInt16} (v : UInt8) (h : address ≠ 0xFF40) :
    (p.writeRegister address v).progress = p.progress ∧
      (p.writeRegister address v).dot = p.dot ∧
      (p.writeRegister address v).lcdEnabled = p.lcdEnabled := by
  obtain ⟨registers, _, _, _, hwrite, hsame⟩ := p.writeRegister_changes v h
  have hon : registers.enabled = p.registers.enabled := by
    rw [LcdRegisters.enabled, hsame.lcdc h]
    rfl
  rw [hwrite]
  exact ⟨rfl, rfl, hon⟩

theorem perform_write_changes {p : Ppu} {a : Action} (hp : p.lcdEnabled) (h : a.keepsOn)
    (ha : a ≠ .step) :
    ∃ registers vram vramBank oam backgroundPalettes objectPalettes,
      p.perform a =
        { p with registers, vram, vramBank, oam, backgroundPalettes, objectPalettes } ∧
      registers.enabled = true := by
  cases a with
  | step => exact absurd rfl ha
  | writeVram | writeOam => exact ⟨_, _, _, _, _, _, rfl, hp⟩
  | writeRegister address v =>
    by_cases haddress : address = 0xFF40
    · subst haddress
      have hv : v &&& 0x80 != 0 := by simpa [Action.keepsOn] using h
      exact ⟨_, _, _, _, _, _, writeControl_of_on hp hv, hv⟩
    · obtain ⟨registers, _, _, _, hwrite, hsame⟩ := p.writeRegister_changes v haddress
      refine ⟨registers, _, _, _, _, _, hwrite, ?_⟩
      rw [LcdRegisters.enabled, hsame.lcdc haddress]
      exact hp

theorem perform_write_frame {p : Ppu} {a : Action} (hp : p.lcdEnabled) (h : a.keepsOn)
    (ha : a ≠ .step) : (p.perform a).progress = p.progress ∧ (p.perform a).dot = p.dot ∧
      (p.perform a).lcdEnabled = true := by
  obtain ⟨_, _, _, _, _, _, hwrite, hon⟩ := perform_write_changes hp h ha
  rw [hwrite]
  exact ⟨rfl, rfl, hon⟩

theorem shiftOut_frame (p : Ppu) (x : Nat) : (p.shiftOut x).contents = p.contents ∧
    (p.shiftOut x).dot = p.dot ∧ (p.shiftOut x).statLine = p.statLine ∧
      (p.shiftOut x).ly = p.ly := by
  unfold shiftOut
  dsimp only
  split <;> exact ⟨rfl, rfl, rfl, rfl⟩

theorem transferCycle_frame (p : Ppu) : p.transferCycle.contents = p.contents ∧
    p.transferCycle.dot = p.dot ∧ p.transferCycle.statLine = p.statLine ∧
      p.transferCycle.ly = p.ly := by
  unfold transferCycle
  dsimp only
  split
  · exact ⟨rfl, rfl, rfl, rfl⟩
  split
  · exact ⟨rfl, rfl, rfl, rfl⟩
  unfold advance
  split
  · exact ⟨rfl, rfl, rfl, rfl⟩
  split
  · exact ⟨rfl, rfl, rfl, rfl⟩
  · exact shiftOut_frame _ _

theorem beginLine_frame (p : Ppu) (line : Nat) : (p.beginLine line).contents = p.contents ∧
    (p.beginLine line).dot = p.dot ∧ (p.beginLine line).statLine = p.statLine ∧
      (p.beginLine line).hblankCount = p.hblankCount := by
  unfold beginLine
  dsimp only
  split
  · exact ⟨rfl, rfl, rfl, rfl⟩
  split <;> exact ⟨rfl, rfl, rfl, rfl⟩

theorem visibleDot_frame (p : Ppu) (lineDot : Nat) :
    (p.visibleDot lineDot).contents = p.contents ∧ (p.visibleDot lineDot).dot = p.dot ∧
      (p.visibleDot lineDot).statLine = p.statLine ∧ (p.visibleDot lineDot).ly = p.ly := by
  unfold visibleDot
  split
  · exact ⟨rfl, rfl, rfl, rfl⟩
  split
  · exact transferCycle_frame p
  · exact ⟨rfl, rfl, rfl, rfl⟩

theorem drawDot_frame (p : Ppu) : p.drawDot.contents = p.contents ∧ p.drawDot.dot = p.dot ∧
    p.drawDot.statLine = p.statLine := by
  unfold drawDot
  dsimp only
  split <;> split <;> simp only [visibleDot_frame, beginLine_frame, and_self]

theorem sampleStat_progress (p : Ppu) : p.sampleStat.1.progress = p.progress := rfl

theorem nextDot_progress (p : Ppu) : p.nextDot.progress = p.progress := by
  unfold nextDot
  split <;> rfl

theorem nextDot_contents (p : Ppu) : p.nextDot.contents = p.contents := by
  unfold nextDot
  split <;> rfl

theorem step_of_on {p : Ppu} (h : p.lcdEnabled) : p.step.1 = p.drawDot.sampleStat.1.nextDot := by
  simp [step, h]

theorem step_of_off {p : Ppu} (h : p.lcdEnabled = false) : p.step.1 = p := by
  simp [step, h]

theorem step_contents (p : Ppu) : p.step.1.contents = p.contents := by
  cases h : p.lcdEnabled with
  | false => rw [step_of_off h]
  | true =>
    rw [step_of_on h, nextDot_contents]
    exact p.drawDot_frame.1

theorem lcdEnabled_eq_of_contents {p q : Ppu} (h : q.contents = p.contents) :
    q.lcdEnabled = p.lcdEnabled := congrArg (fun c => c.registers.enabled) h

@[simp] theorem step_lcdEnabled (p : Ppu) : p.step.1.lcdEnabled = p.lcdEnabled :=
  lcdEnabled_eq_of_contents p.step_contents

theorem step_progress {p : Ppu} (h : p.lcdEnabled) : p.step.1.progress = p.drawDot.progress := by
  rw [step_of_on h, nextDot_progress, sampleStat_progress]

theorem step_dot {p : Ppu} (h : p.lcdEnabled) :
    p.step.1.dot = if p.dot + 1 = cyclesPerFrame then 0 else p.dot + 1 := by
  have hsample : p.drawDot.sampleStat.1.dot = p.dot := p.drawDot_frame.2.1
  rw [step_of_on h, nextDot, hsample]
  split <;> rfl

theorem step_dot_mod {p : Ppu} (h : p.lcdEnabled) {n : Nat} (hdot : p.dot = n % cyclesPerFrame) :
    p.step.1.dot = (n + 1) % cyclesPerFrame := by
  have hlt : n % cyclesPerFrame < cyclesPerFrame := Nat.mod_lt n (by decide)
  rw [step_dot h, hdot, ← Nat.mod_add_mod]
  split
  case isTrue hlast => rw [hlast, Nat.mod_self]
  case isFalse hmore => exact (Nat.mod_eq_of_lt (by omega)).symm

theorem perform_lcdEnabled {p : Ppu} {a : Action} (hp : p.lcdEnabled) (h : a.keepsOn) :
    (p.perform a).lcdEnabled = true := by
  by_cases ha : a = .step
  · subst ha
    exact p.step_lcdEnabled.trans hp
  · exact (perform_write_frame hp h ha).2.2

theorem performAll_lcdEnabled {p : Ppu} {actions : List Action} (hp : p.lcdEnabled)
    (h : ∀ a ∈ actions, a.keepsOn) : (p.performAll actions).lcdEnabled = true := by
  induction actions generalizing p with
  | nil => exact hp
  | cons a rest ih =>
    exact ih (perform_lcdEnabled hp (h a (by simp))) fun b hb => h b (by simp [hb])

theorem performAll_dot {p : Ppu} {actions : List Action} (hp : p.lcdEnabled)
    (hdot : p.dot < cyclesPerFrame) (h : ∀ a ∈ actions, a.keepsOn) :
    (p.performAll actions).dot = (p.dot + dotsOf actions) % cyclesPerFrame := by
  induction actions generalizing p with
  | nil => exact (Nat.mod_eq_of_lt hdot).symm
  | cons a rest ih =>
    have hon := perform_lcdEnabled hp (h a (by simp))
    have hrest : ∀ b ∈ rest, b.keepsOn := fun b hb => h b (by simp [hb])
    by_cases ha : a = .step
    · subst ha
      have hstep : (p.perform .step).dot = (p.dot + 1) % cyclesPerFrame :=
        step_dot_mod hp (Nat.mod_eq_of_lt hdot).symm
      have hlt : (p.perform .step).dot < cyclesPerFrame := by
        rw [hstep]
        exact Nat.mod_lt _ (by decide)
      rw [performAll_cons, ih hon hlt hrest, hstep, dotsOf_step, Nat.mod_add_mod, Nat.add_assoc,
        Nat.add_comm 1]
    · have hsame := (perform_write_frame hp (h a (by simp)) ha).2.1
      rw [performAll_cons, ih hon (by rw [hsame]; exact hdot) hrest, hsame, dotsOf_write ha]

end Handheld.Ppu
