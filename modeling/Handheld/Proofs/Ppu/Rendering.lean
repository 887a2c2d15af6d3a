import Handheld.Proofs.Ppu.Composition
import Handheld.Proofs.Ppu.InRange

/-!
Every pixel that a transfer puts. The sprites of a line and their height are those that were found
on the dot on which its transfer began, whatever is written while it lasts; with them every pixel of
the line is composed as it should be.
-/

namespace Handheld.Ppu

/-- What can be reached from power on. The start-up program's state may be set at any time, and the
host may change the shades and the output. -/
inductive Attainable : Ppu → Prop where
  | create (model : Model) : Attainable { model }
  | boot {p : Ppu} (h : Attainable p) : Attainable p.afterBoot
  | host {p : Ppu} (h : Attainable p) (shades : Shades) (video : Option VideoOutput) :
      Attainable { p with shades, video }
  | perform {p : Ppu} (h : Attainable p) (a : Action) : Attainable (p.perform a)

theorem Attainable.performAll {p : Ppu} (h : p.Attainable) (actions : List Action) :
    (p.performAll actions).Attainable := by
  induction actions generalizing p with
  | nil => exact h
  | cons a rest ih => exact ih (h.perform a)

theorem Attainable.drawing {p : Ppu} (h : p.Attainable) (hon : p.lcdEnabled) : p.Drawing := by
  induction h with
  | create model => simp [lcdEnabled, LcdRegisters.enabled] at hon
  | boot h ih => exact drawing_of_dot_eq_zero hon rfl
  | host h shades video ih => exact (ih hon).of_frame rfl rfl hon
  | perform h a ih => exact perform_drawing ih a hon

/-- A unit in the transfer that the next dot of another began. -/
inductive BegunBy (q : Ppu) : Ppu → Prop where
  | begin (hq : q.Attainable) (hon : q.lcdEnabled) (hline : q.dot / dotsPerLine < screenHeight)
      (hdot : q.dot % dotsPerLine = searchDots) : BegunBy q (q.perform .step)
  | host {p : Ppu} (h : BegunBy q p) (shades : Shades) (video : Option VideoOutput) :
      BegunBy q { p with shades, video }
  | perform {p : Ppu} (h : BegunBy q p) (a : Action)
      (hmode : (p.perform a).mode = .pixelTransfer) : BegunBy q (p.perform a)

theorem transferCycle_lineSprites (p : Ppu) : p.transferCycle.lineSprites = p.lineSprites := by
  rw [transferCycle_eq]
  split
  · rfl
  split
  · rfl
  unfold advance
  split
  · rfl
  split
  · rfl
  · unfold shiftOut
    dsimp only
    split <;> rfl

theorem step_lineSprites {p : Ppu} (hon : p.lcdEnabled) :
    p.step.1.lineSprites = p.drawDot.lineSprites := by
  rw [step_of_on hon, nextDot]
  split <;> rfl

theorem step_of_begin {p : Ppu} (hon : p.lcdEnabled) (hline : p.dot / dotsPerLine < screenHeight)
    (hdot : p.dot % dotsPerLine = searchDots) :
    p.step.1.progress = p.beginTransfer.progress ∧
      p.step.1.lineSprites = .search p.oam p.ly p.registers.spriteHeight := by
  have hdraw : p.drawDot = p.beginTransfer := by
    rw [drawDot_later hline (by rw [hdot]; decide), visibleDot, if_pos hdot]
  rw [step_progress hon, step_lineSprites hon, hdraw]
  exact ⟨rfl, rfl⟩

theorem step_transferring {p : Ppu} (hon : p.lcdEnabled) (h : p.OnSchedule)
    (hmode : p.step.1.mode = .pixelTransfer) :
    (p.dot / dotsPerLine < screenHeight ∧ p.dot % dotsPerLine = searchDots) ∨
      (p.mode = .pixelTransfer ∧ p.step.1.lineSprites = p.lineSprites ∧ p.step.1.ly = p.ly) := by
  have hprogress := step_progress hon
  have hdrawn : p.drawDot.mode = .pixelTransfer :=
    (congrArg Progress.mode hprogress).symm.trans hmode
  have hly : p.step.1.ly = p.drawDot.ly := congrArg Progress.ly hprogress
  rw [step_lineSprites hon, hly]
  by_cases hline : p.dot / dotsPerLine < screenHeight
  · by_cases hfirst : p.dot % dotsPerLine = 0
    · rw [drawDot_first hline hfirst] at hdrawn
      cases hdrawn
    by_cases hsearch : p.dot % dotsPerLine = searchDots
    · exact .inl ⟨hline, hsearch⟩
    rw [drawDot_later hline (by omega), visibleDot, if_neg hsearch] at hdrawn ⊢
    split at hdrawn
    case isTrue hin =>
      rw [if_pos hin]
      exact .inr ⟨hin, p.transferCycle_lineSprites, p.transferCycle_frame.2.2.2⟩
    case isFalse hout => exact absurd hdrawn hout
  · have hplace : vblankDot ≤ p.dot := by
      simp only [vblankDot, dotsPerLine, screenHeight] at hline ⊢; omega
    obtain ⟨-, hentry, hstay⟩ := drawDot_of_vblank hplace
    have hblank : p.drawDot.mode = .vblank := by
      rcases Nat.lt_or_ge vblankDot p.dot with hinside | hfirst
      · exact hstay (h.vblank hinside)
      · exact hentry (by omega)
    rw [hblank] at hdrawn
    cases hdrawn

theorem perform_write_transferring {p : Ppu} {a : Action} (ha : a ≠ .step)
    (hmode : (p.perform a).mode = .pixelTransfer) :
    p.mode = .pixelTransfer ∧ (p.perform a).lcdEnabled = p.lcdEnabled ∧
      (p.perform a).lineSprites = p.lineSprites ∧ (p.perform a).ly = p.ly := by
  cases a with
  | step => exact absurd rfl ha
  | writeVram | writeOam => exact ⟨hmode, rfl, rfl, rfl⟩
  | writeRegister address v =>
    change (p.writeRegister address v).mode = _ at hmode
    change _ ∧ (p.writeRegister address v).lcdEnabled = _ ∧
      (p.writeRegister address v).lineSprites = _ ∧ (p.writeRegister address v).ly = _
    by_cases haddress : address = 0xFF40
    · subst haddress
      change (p.writeControl v).mode = _ at hmode
      change _ ∧ (p.writeControl v).lcdEnabled = _ ∧ (p.writeControl v).lineSprites = _ ∧
        (p.writeControl v).ly = _
      unfold writeControl at hmode ⊢
      dsimp only at hmode ⊢
      split at hmode
      case isTrue => cases hmode
      case isFalse hoff =>
        split at hmode
        case isTrue => cases hmode
        case isFalse hon =>
          rw [if_neg hoff, if_neg hon]
          refine ⟨hmode, ?_, rfl, rfl⟩
          revert hoff hon
          cases p.lcdEnabled <;>
            cases Ppu.lcdEnabled { p with registers := { p.registers with lcdc := v } } <;> simp
    · obtain ⟨-, -, hon⟩ := p.writeRegister_other v haddress
      obtain ⟨_, _, _, _, hwrite, -⟩ := p.writeRegister_changes v haddress
      rw [hwrite] at hmode hon ⊢
      exact ⟨hmode, hon, rfl, rfl⟩

theorem OnSchedule.mode_of_search {p : Ppu} (h : p.OnSchedule)
    (hline : p.dot / dotsPerLine < screenHeight) (hdot : p.dot % dotsPerLine = searchDots) :
    p.mode = .oamSearch := by
  obtain ⟨entered, hvisible⟩ := h.visible hline
  rw [hdot] at hvisible
  cases hvisible with
  | search _ hmode => exact hmode (by decide)
  | transfer cycles hpos hn => omega
  | blank cycles hn htransferred =>
    have hfewest := htransferred.fewest
    omega

/-- What is known of a unit throughout a transfer that was begun. -/
structure Begun (q p : Ppu) : Prop where
  attainable : p.Attainable
  on : p.lcdEnabled
  mode : p.mode = .pixelTransfer
  sprites : p.lineSprites = .search q.oam q.ly q.registers.spriteHeight
  ly : p.ly = q.ly
  visible : q.ly.toNat < screenHeight

theorem BegunBy.begun {q p : Ppu} (h : BegunBy q p) : Begun q p := by
  induction h with
  | begin hq hon hline hdot =>
    obtain ⟨hprogress, hsprites⟩ := step_of_begin hon hline hdot
    have hly : q.ly.toNat = q.dot / dotsPerLine :=
      (hq.drawing hon).line hline (by rw [hdot]; decide)
    exact
      { attainable := hq.perform .step
        on := q.step_lcdEnabled.trans hon
        mode := congrArg Progress.mode hprogress
        sprites := hsprites
        ly := congrArg Progress.ly hprogress
        visible := by omega }
  | host h shades video ih =>
    exact ⟨ih.attainable.host shades video, ih.on, ih.mode, ih.sprites, ih.ly, ih.visible⟩
  | @perform p h a hmode ih =>
    have hattained := ih.attainable.perform a
    by_cases ha : a = .step
    · subst ha
      have hschedule := (ih.attainable.drawing ih.on).schedule
      rcases step_transferring ih.on hschedule hmode with ⟨hline, hdot⟩ | ⟨-, hsame, hly⟩
      · have hsearch := hschedule.mode_of_search hline hdot
        rw [ih.mode] at hsearch
        cases hsearch
      · exact ⟨hattained, p.step_lcdEnabled.trans ih.on, hmode, hsame.trans ih.sprites,
          hly.trans ih.ly, ih.visible⟩
    · obtain ⟨-, hon, hsame, hly⟩ := perform_write_transferring ha hmode
      exact ⟨hattained, hon.trans ih.on, hmode, hsame.trans ih.sprites, hly.trans ih.ly, ih.visible⟩

/-- Every transfer under way was begun by some dot. -/
theorem Attainable.exists_begunBy {p : Ppu} (h : p.Attainable) (hmode : p.mode = .pixelTransfer) :
    ∃ q, BegunBy q p := by
  induction h with
  | create model => cases hmode
  | boot h ih => cases hmode
  | host h shades video ih =>
    obtain ⟨q, hq⟩ := ih hmode
    exact ⟨q, hq.host shades video⟩
  | @perform p h a ih =>
    by_cases ha : a = .step
    · subst ha
      cases hon : p.lcdEnabled with
      | false =>
        have hstill : p.perform .step = p := step_of_off hon
        rw [hstill] at hmode ⊢
        exact ih hmode
      | true =>
        rcases step_transferring hon (h.drawing hon).schedule hmode with ⟨hline, hdot⟩ | ⟨hin, -⟩
        · exact ⟨p, .begin h hon hline hdot⟩
        · obtain ⟨q, hq⟩ := ih hin
          exact ⟨q, hq.perform .step hmode⟩
    · obtain ⟨q, hq⟩ := ih (perform_write_transferring ha hmode).1
      exact ⟨q, hq.perform a hmode⟩

theorem drawPixel_put {p : Ppu} {x : Nat} {color : Rgb}
    (h : color = p.composed x (p.backgroundPixel x)) :
    p.drawPixel x =
      { p with frames := p.frames.put x p.ly.toNat color (p.backdrop x).number } := by
  rw [drawPixel, h, backgroundPixel_eq]

/-- In every unit that is in a transfer, the color drawn in any column is the one that the
composition gives for the sprites found, at the height in force, on the dot that began the transfer;
it is that color which the picture being drawn then holds there. The column of the window's plane is
the distance from WX - 7 wherever that lies to the left. A pixel that the next dot puts is so
composed, and it is not taken from the background where the window comes in. -/
theorem pixel_composed {p : Ppu} (h : p.Attainable) (hmode : p.mode = .pixelTransfer) :
    ∃ q, BegunBy q p ∧
      let line := LineSprites.search q.oam q.ly q.registers.spriteHeight
      (∀ x < screenWidth, ∃ color, (∀ c, p.Composes line x c ↔ c = color) ∧
        p.drawPixel x =
          { p with frames := p.frames.put x p.ly.toNat color (p.backdrop x).number } ∧
        (p.drawPixel x).frames.back.get x p.ly.toNat = color ∧
        (p.registers.wx.toNat ≤ x + 7 → p.windowColumn x = x + 7 - p.registers.wx.toNat)) ∧
      ∀ put, p.nextPut? = some put →
        (put.x = p.transfer.x ∧ put.x < screenWidth ∧ put.y = p.ly.toNat) ∧
        p.Composes line put.x put.color ∧ put.number = (p.backdrop put.x).number ∧
        p.step.1.frames = put.apply p.frames ∧ (p.windowCovers put.x → p.transfer.window) := by
  obtain ⟨q, hq⟩ := h.exists_begunBy hmode
  have hbegun := hq.begun
  have hsprites : p.lineSprites = .search q.oam p.ly q.registers.spriteHeight := by
    rw [hbegun.ly]
    exact hbegun.sprites
  have hlatched := latched_of_search hsprites
  have hcomposes := fun {x} (hx : x < screenWidth) c => composes_iff hlatched hx c
  rw [hbegun.sprites] at hcomposes
  refine ⟨q, hq, fun x hx => ?_, fun put hput => ?_⟩
  · have hdrawn := drawPixel_put (p := p) (x := x) rfl
    refine ⟨_, hcomposes hx, hdrawn, ?_, windowColumn_of_le hx⟩
    rw [hdrawn]
    exact Picture.get_put_self _ hx (hbegun.ly ▸ hbegun.visible) _
  · have hdrawing := h.drawing hbegun.on
    obtain ⟨-, hframes⟩ := step_of_nextPut hdrawing hput
    unfold nextPut? at hput
    split at hput
    case isFalse => cases hput
    case isTrue hnext =>
      cases hput
      have hfree := (Bool.and_eq_true_iff.mp hnext).2
      have hin := (Bool.and_eq_true_iff.mp hnext).1
      simp only [inTransfer, Bool.and_eq_true, decide_eq_true_eq, bne_iff_ne] at hin
      obtain ⟨⟨⟨⟨-, hline⟩, hlater⟩, -⟩, -⟩ := hin
      have hx := (hdrawing.onScreen hline (Nat.pos_of_ne_zero hlater) hmode).1
      refine ⟨⟨rfl, hx, rfl⟩, (hcomposes hx _).mpr rfl,
        congrArg BackgroundPixel.number (p.backgroundPixel_eq _), hframes, fun hcovers => ?_⟩
      change p.windowCovers p.transfer.x at hcovers
      simp only [unheld, hcovers, Bool.not_true, Bool.or_false, Bool.and_eq_true] at hfree
      exact hfree.1.2

/-- A tall sprite upside down on the first line, whose eleventh row from its top is there and of
which the sixth row of its tiles is solid; its height is taken back in the middle of the line, a few
columns before it. -/
def tallLine : List Action :=
  [.writeRegister 0xFF40 0x86, .writeVram 0x800A 0xFF, .writeVram 0x800B 0xFF, .writeOam 0 6,
    .writeOam 1 16, .writeOam 3 0x40] ++
    (List.replicate 90 .step ++ .writeRegister 0xFF40 0x82 :: List.replicate 17 .step)

/-- A line of the background of a color console, one row of whose tile is solid, and a word of
palette memory for its number: red as it can be, no green and half of the blue. -/
def purpleLine : List Action :=
  [.writeRegister 0xFF68 0x82, .writeRegister 0xFF69 0x1F, .writeRegister 0xFF69 0x40,
    .writeVram 0 0xFF] ++ List.replicate 95 .step

theorem tallLine_composed :
    let tall := (afterBoot { model := .monochrome }).performAll tallLine
    let purple := (afterBoot { model := .color }).performAll purpleLine
    (tall.Attainable ∧ tall.mode = .pixelTransfer ∧ tall.registers.spriteHeight = 8 ∧
      tall.nextPut? = some { x := 8, y := 0, color := ⟨0, 0, 0⟩, number := 0 } ∧
      ∃ q, BegunBy q tall ∧
        tall.Composes (.search q.oam q.ly q.registers.spriteHeight) 8 ⟨0, 0, 0⟩) ∧
    (purple.Attainable ∧ purple.mode = .pixelTransfer ∧
      purple.behindColor (purple.backdrop 7) = ⟨0xFF, 0, 0x84⟩ ∧
      purple.nextPut? = some { x := 7, y := 0, color := ⟨0xFF, 0, 0x84⟩, number := 1 } ∧
      ∃ q, BegunBy q purple ∧
        purple.Composes (.search q.oam q.ly q.registers.spriteHeight) 7 ⟨0xFF, 0, 0x84⟩) := by
  intro tall purple
  have htall : tall.Attainable := ((Attainable.create .monochrome).boot).performAll tallLine
  have hpurple : purple.Attainable := ((Attainable.create .color).boot).performAll purpleLine
  have hsprite : tall.mode = .pixelTransfer ∧ tall.registers.spriteHeight = 8 ∧
      tall.nextPut? = some { x := 8, y := 0, color := ⟨0, 0, 0⟩, number := 0 } := by
    decide +kernel
  have hbare : purple.mode = .pixelTransfer ∧
      purple.behindColor (purple.backdrop 7) = ⟨0xFF, 0, 0x84⟩ ∧
      purple.nextPut? = some { x := 7, y := 0, color := ⟨0xFF, 0, 0x84⟩, number := 1 } := by
    decide +kernel
  obtain ⟨hmode, hheight, hput⟩ := hsprite
  obtain ⟨hmode', hcolor, hput'⟩ := hbare
  obtain ⟨q, hq, -, hputs⟩ := pixel_composed htall hmode
  obtain ⟨q', hq', -, hputs'⟩ := pixel_composed hpurple hmode'
  exact ⟨⟨htall, hmode, hheight, hput, q, hq, (hputs _ hput).2.1⟩,
    hpurple, hmode', hcolor, hput', q', hq', (hputs' _ hput').2.1⟩

end Handheld.Ppu
