import Handheld.Proofs.Ppu.Accesses
import Handheld.Proofs.Ppu.Blank
import Handheld.Proofs.Ppu.Pixels

/-!
A dot finds everything it reads and writes in range, and takes no number from a smaller one, in
every unit that can be reached without moving the window to the right of the column drawn while it
owns the line.
-/

namespace Handheld

namespace Checked

theorem fetched_eq (vram : Vram) (oam : Oam) (i : Nat) (source : FetchSource) :
    fetched vram oam i source = some (source.read vram oam i) := by
  cases source with
  | tile bank address =>
    exact vramByte_of_lt vram (Nat.mod_lt _ Nat.two_pos) (Nat.mod_lt _ (by decide))
  | sprite index => exact read_of_lt oam (Nat.mod_lt _ (by decide))

theorem tick_eq (f : Fetcher) (vram : Vram) (oam : Oam) :
    tick f vram oam = some (f.tick vram oam).1 := by
  unfold tick Fetcher.tick
  cases f.source with
  | none => rfl
  | some source =>
    dsimp only
    split <;> simp_all [fetched_eq]

theorem startFetch_eq (p : Ppu) (source : FetchSource) :
    startFetch p source = some (p.startFetch source) := by
  simp [startFetch, Ppu.startFetch, tick_eq]

theorem beginTransfer_eq (p : Ppu) : beginTransfer p = some p.beginTransfer := by
  obtain ⟨table, hsearch, -⟩ := search_eq p.oam p.ly p.registers.spriteHeight
  rw [beginTransfer, hsearch]
  simp only [Option.bind_eq_bind, Option.bind_some]
  have hmap : p.registers.backgroundMap ≤ 0x1C00 := mapBase_le ..
  rw [tileSource_eq p hmap]
  exact startFetch_eq _ _

theorem enterWindow_eq (p : Ppu) : enterWindow p = some p.enterWindow := by
  have hmap : p.registers.windowMap ≤ 0x1C00 := mapBase_le ..
  rw [enterWindow, tileSource_eq p hmap]
  exact startFetch_eq _ _

theorem fetchSprite_eq (p : Ppu) (slot : SpriteSlot) :
    fetchSprite p slot = some (p.fetchSprite slot) := by
  rw [fetchSprite, sub_of_le (Nat.min_le_right _ _)]
  exact startFetch_eq _ _

end Checked

namespace Ppu
open Checked (Selected)

/-- The sprites of the line are in order, and a window that owns it reaches back at least to the
column drawn. -/
structure Renderable (p : Ppu) : Prop where
  selected : Selected p.lineSprites
  window : p.mode = .pixelTransfer → p.transfer.window →
    p.registers.wx.toNat ≤ p.transfer.x + 7

theorem Drawing.onScreen {p : Ppu} (h : p.Drawing) (hline : p.dot / dotsPerLine < screenHeight)
    (hlater : 0 < p.dot % dotsPerLine) (hmode : p.mode = .pixelTransfer) :
    p.transfer.x < screenWidth ∧ p.ly.toNat < screenHeight := by
  refine ⟨?_, by rw [h.line hline hlater]; exact hline⟩
  obtain ⟨entered, hvisible⟩ := h.schedule.visible hline
  cases hvisible with
  | search _ hsearch =>
    have hother : p.mode = .oamSearch := hsearch hlater
    rw [hmode] at hother
    cases hother
  | transfer _ _ _ htransfer => exact htransfer.column
  | blank _ _ htransferred =>
    have hother : p.mode = .hblank := htransferred.mode
    rw [hmode] at hother
    cases hother

theorem windowCovers_le {p : Ppu} {x : Nat} (h : p.windowCovers x) :
    p.registers.wx.toNat ≤ x + 7 := by
  simp only [windowCovers, Bool.and_eq_true, decide_eq_true_eq] at h
  exact h.2

end Ppu

namespace Checked

theorem drawPixel_eq {p : Ppu} (h : p.Renderable) (hmode : p.mode = .pixelTransfer)
    (hx : p.transfer.x < screenWidth) (hy : p.ly.toNat < screenHeight) :
    drawPixel p p.transfer.x = some (p.drawPixel p.transfer.x) := by
  rw [drawPixel, backgroundPixel_eq (h.window hmode)]
  simp only [Option.bind_eq_bind, Option.bind_some]
  rw [composed_eq h.selected _ (backgroundPixel_lt p _)]
  simp only [Option.bind_some]
  rw [put_eq p.frames hx hy]
  rfl

theorem advance_eq {p : Ppu} (h : p.Renderable) (hmode : p.mode = .pixelTransfer)
    (hx : p.transfer.x < screenWidth) (hy : p.ly.toNat < screenHeight) :
    advance p p.transfer.x = some (p.advance p.transfer.x) := by
  unfold advance Ppu.advance
  split
  · exact enterWindow_eq p
  cases p.waitingSprite? p.transfer.x with
  | some slot => exact fetchSprite_eq p slot
  | none =>
    dsimp only
    rw [shiftOut, drawPixel_eq h hmode hx hy]
    rfl

theorem transferCycle_eq {p : Ppu} (h : p.Renderable) (hmode : p.mode = .pixelTransfer)
    (hx : p.transfer.x < screenWidth) (hy : p.ly.toNat < screenHeight) :
    transferCycle p = some p.transferCycle := by
  have hcounted : p.countCycle.Renderable := ⟨h.selected, h.window⟩
  have hcycle : transferCycle p =
      if p.fetcher.busy then
        (tick p.fetcher p.vram p.oam).bind fun fetcher => some { p.countCycle with fetcher }
      else if 0 < p.transfer.stall then
        (sub p.transfer.stall 1).bind fun stall =>
          some { p.countCycle with transfer := { p.countCycle.transfer with stall } }
      else advance p.countCycle p.transfer.x := rfl
  rw [hcycle, Ppu.transferCycle_eq]
  split
  · rw [tick_eq]
    rfl
  split
  case isTrue hstall =>
    rw [sub_of_le hstall]
    rfl
  case isFalse => exact advance_eq hcounted hmode hx hy

theorem visibleDot_eq {p : Ppu} (h : p.Renderable) (hd : p.Drawing)
    (hline : p.dot / dotsPerLine < screenHeight) (hlater : 0 < p.dot % dotsPerLine) :
    visibleDot p (p.dot % dotsPerLine) = some (p.visibleDot (p.dot % dotsPerLine)) := by
  unfold visibleDot Ppu.visibleDot
  split
  · exact beginTransfer_eq p
  split
  case isTrue hmode =>
    obtain ⟨hx, hy⟩ := hd.onScreen hline hlater hmode
    exact transferCycle_eq h hmode hx hy
  case isFalse => rfl

theorem drawDot_eq {p : Ppu} (h : p.Renderable) (hd : p.Drawing) :
    drawDot p = some p.drawDot := by
  unfold drawDot Ppu.drawDot
  dsimp only
  by_cases hline : p.dot / dotsPerLine < screenHeight
  · rw [if_pos hline, if_pos hline]
    rcases Nat.eq_zero_or_pos (p.dot % dotsPerLine) with hfirst | hlater
    · simp [hfirst, visibleDot, Ppu.visibleDot, Ppu.beginLine, hline, Ppu.searchDots]
    · rw [if_neg (by omega)]
      exact visibleDot_eq h hd hline hlater
  · rw [if_neg hline, if_neg hline]

theorem step_eq {p : Ppu} (h : p.Renderable) (hd : p.lcdEnabled → p.Drawing) :
    step p = some p.step := by
  unfold step Ppu.step
  split
  case isTrue hon =>
    rw [drawDot_eq h (hd hon)]
    rfl
  case isFalse => rfl

end Checked

namespace Ppu
open Checked (Selected)

theorem beginTransfer_renderable (p : Ppu) : p.beginTransfer.Renderable where
  selected :=
    { few := LineSprites.search_length_le ..
      height := by
        change p.registers.spriteHeight = 8 ∨ p.registers.spriteHeight = 16
        unfold LcdRegisters.spriteHeight
        split
        · exact .inl rfl
        · exact .inr rfl }
  window _ howns := by cases howns

theorem Renderable.shiftOut {p : Ppu} (h : p.Renderable) (hmode : p.mode = .pixelTransfer) :
    (p.shiftOut p.transfer.x).Renderable := by
  unfold Ppu.shiftOut
  dsimp only
  split
  · exact ⟨h.selected, fun hblank => by cases hblank⟩
  · exact ⟨h.selected, fun _ howns => Nat.le_succ_of_le (h.window hmode howns)⟩

theorem Renderable.advance {p : Ppu} (h : p.Renderable) (hmode : p.mode = .pixelTransfer) :
    (p.advance p.transfer.x).Renderable := by
  unfold Ppu.advance
  split
  case isTrue henters =>
    rw [Bool.and_eq_true] at henters
    exact ⟨h.selected, fun _ _ => windowCovers_le henters.2⟩
  split
  · exact ⟨h.selected, h.window⟩
  · exact h.shiftOut hmode

theorem Renderable.transferCycle {p : Ppu} (h : p.Renderable) (hmode : p.mode = .pixelTransfer) :
    p.transferCycle.Renderable := by
  rw [transferCycle_eq]
  split
  · exact ⟨h.selected, h.window⟩
  split
  · exact ⟨h.selected, h.window⟩
  · exact Renderable.advance (p := p.countCycle) ⟨h.selected, h.window⟩ hmode

theorem Renderable.beginLine {p : Ppu} (h : p.Renderable) (line : Nat) :
    (p.beginLine line).Renderable := by
  unfold Ppu.beginLine
  dsimp only
  split
  · exact ⟨h.selected, fun hsearch => by cases hsearch⟩
  split
  · exact ⟨h.selected, fun hblank => by cases hblank⟩
  · exact ⟨h.selected, h.window⟩

theorem Renderable.visibleDot {p : Ppu} (h : p.Renderable) (lineDot : Nat) :
    (p.visibleDot lineDot).Renderable := by
  unfold Ppu.visibleDot
  split
  · exact beginTransfer_renderable p
  split
  case isTrue hmode => exact h.transferCycle hmode
  case isFalse => exact h

theorem Renderable.step {p : Ppu} (h : p.Renderable) : p.step.1.Renderable := by
  have hdrawn : p.drawDot.Renderable := by
    unfold drawDot
    dsimp only
    have hbegun : Renderable
        (if p.dot % dotsPerLine = 0 then p.beginLine (p.dot / dotsPerLine) else p) := by
      split
      · exact h.beginLine _
      · exact h
    split
    · exact hbegun.visibleDot _
    · exact hbegun
  cases hon : p.lcdEnabled with
  | false => rwa [step_of_off hon]
  | true =>
    rw [step_of_on hon, nextDot]
    split <;> exact ⟨hdrawn.selected, hdrawn.window⟩

theorem Renderable.writeControl {p : Ppu} (h : p.Renderable) (v : UInt8) :
    (p.writeControl v).Renderable := by
  unfold Ppu.writeControl
  dsimp only
  split
  · exact ⟨⟨Nat.zero_le _, h.selected.height⟩, fun hblank => by cases hblank⟩
  split
  · exact ⟨h.selected, fun hsearch => by cases hsearch⟩
  · exact ⟨h.selected, h.window⟩

theorem Renderable.writeRegister {p : Ppu} (h : p.Renderable) {address : UInt16} {v : UInt8}
    (hwx : address = 0xFF4B → p.mode = .pixelTransfer → p.transfer.window →
      v ≤ p.registers.wx) : (p.writeRegister address v).Renderable := by
  unfold Ppu.writeRegister
  split
  case h_1 => exact h.writeControl v
  case h_11 =>
    exact ⟨h.selected, fun hmode howns => Nat.le_trans
      (UInt8.le_iff_toNat_le.mp (hwx rfl hmode howns)) (h.window hmode howns)⟩
  case h_12 =>
    split
    · unfold writeColorRegister
      split <;> exact ⟨h.selected, h.window⟩
    · exact h
  all_goals exact ⟨h.selected, h.window⟩

/-- A write that moves the window to the right while it owns the line. -/
def retreatsWindow (p : Ppu) : Action → Bool
  | .writeRegister address v =>
    address == 0xFF4B && p.mode == .pixelTransfer && p.transfer.window && p.registers.wx < v
  | _ => false

theorem Renderable.perform {p : Ppu} (h : p.Renderable) {a : Action}
    (ha : p.retreatsWindow a = false) : (p.perform a).Renderable := by
  cases a with
  | step => exact h.step
  | writeVram | writeOam => exact ⟨h.selected, h.window⟩
  | writeRegister address v =>
    refine h.writeRegister fun haddress hmode howns => ?_
    simpa [retreatsWindow, haddress, hmode, howns] using ha

theorem perform_drawing {p : Ppu} (h : p.lcdEnabled → p.Drawing) (a : Action)
    (hon : (p.perform a).lcdEnabled) : (p.perform a).Drawing := by
  cases a with
  | step => exact (h (p.step_lcdEnabled.symm.trans hon)).step
  | writeVram | writeOam => exact (h hon).of_frame rfl rfl hon
  | writeRegister address v =>
    by_cases haddress : address = 0xFF40
    · subst haddress
      have hv : v &&& 0x80 != 0 := by
        cases hv : v &&& 0x80 != 0 with
        | true => rfl
        | false => exact absurd hon (by simp [perform, writeRegister, p.writeControl_off hv])
      cases hbefore : p.lcdEnabled with
      | false => exact drawing_of_dot_eq_zero hon (writeControl_of_off hbefore hv).2
      | true =>
        have hkeeps : (Action.writeRegister 0xFF40 v).keepsOn := by simpa [Action.keepsOn] using hv
        obtain ⟨hprogress, hdot, -⟩ := perform_write_frame hbefore hkeeps (by simp)
        exact (h hbefore).of_frame hprogress hdot hon
    · obtain ⟨hprogress, hdot, hsame⟩ := p.writeRegister_other v haddress
      exact (h (hsame.symm.trans hon)).of_frame hprogress hdot hon

/-- What can be reached from power on. The start-up program's state may be set at any time, and the
host may change the shades and the output. -/
inductive Reachable : Ppu → Prop where
  | create (model : Model) : Reachable { model }
  | boot {p : Ppu} (h : Reachable p) : Reachable p.afterBoot
  | host {p : Ppu} (h : Reachable p) (shades : Shades) (video : Option VideoOutput) :
      Reachable { p with shades, video }
  | perform {p : Ppu} (h : Reachable p) (a : Action) (ha : p.retreatsWindow a = false) :
      Reachable (p.perform a)

theorem Reachable.renderable {p : Ppu} (h : p.Reachable) : p.Renderable := by
  induction h with
  | create model => exact ⟨⟨Nat.zero_le _, .inl rfl⟩, fun _ howns => by cases howns⟩
  | boot h ih => exact ⟨ih.selected, fun hsearch => by cases hsearch⟩
  | host h shades video ih => exact ⟨ih.selected, ih.window⟩
  | perform h a ha ih => exact ih.perform ha

theorem Reachable.drawing {p : Ppu} (h : p.Reachable) (hon : p.lcdEnabled) : p.Drawing := by
  induction h with
  | create model => simp [lcdEnabled, LcdRegisters.enabled] at hon
  | boot h ih => exact drawing_of_dot_eq_zero hon rfl
  | host h shades video ih => exact (ih hon).of_frame rfl rfl hon
  | perform h a ha ih => exact perform_drawing ih a hon

/-- Whatever was done to a unit, unless the window was moved to the right on a line that it owned,
the next dot comes to its end with every access checked, and what it puts is on the screen. -/
theorem step_in_range {p : Ppu} (h : p.Reachable) :
    Checked.step p = some p.step ∧
      ∀ put, p.nextPut? = some put → put.x < screenWidth ∧ put.y < screenHeight := by
  refine ⟨Checked.step_eq h.renderable h.drawing, fun put hput => ?_⟩
  unfold nextPut? at hput
  split at hput
  case isFalse => cases hput
  case isTrue hnext =>
    cases hput
    simp only [Bool.and_eq_true, inTransfer, decide_eq_true_eq, bne_iff_ne, beq_iff_eq] at hnext
    obtain ⟨⟨⟨⟨⟨hon, hline⟩, hlater⟩, -⟩, hmode⟩, -⟩ := hnext
    exact (h.drawing hon).onScreen hline (Nat.pos_of_ne_zero hlater) hmode

theorem Reachable.steps {p : Ppu} (h : p.Reachable) (n : Nat) :
    (p.performAll (List.replicate n .step)).Reachable := by
  induction n generalizing p with
  | zero => exact h
  | succ n ih => exact ih (h.perform .step rfl)

/-- A sprite and a window that starts under it, before the start of a frame. -/
def windowed : Ppu :=
  ((((afterBoot { model := .color }).perform (.writeRegister 0xFF40 0xF3)).perform
    (.writeOam 0 16)).perform (.writeOam 1 20)).perform (.writeRegister 0xFF4B 20)

theorem windowed_in_range :
    let p := windowed.performAll (List.replicate 115 .step)
    p.Reachable ∧ p.transfer.window ∧ Checked.step p = some p.step ∧
      ∃ put, p.nextPut? = some put ∧ put.x < screenWidth ∧ put.y < screenHeight := by
  intro p
  have hreachable : p.Reachable := by
    refine Reachable.steps ?_ 115
    exact ((((Reachable.boot (.create .color)).perform _ rfl).perform _ rfl).perform _ rfl).perform
      _ (by decide +kernel)
  have hdraws : p.transfer.window ∧ p.nextPut?.isSome := by decide +kernel
  obtain ⟨put, hput⟩ := Option.isSome_iff_exists.mp hdraws.2
  obtain ⟨hstep, honScreen⟩ := step_in_range hreachable
  exact ⟨hreachable, hdraws.1, hstep, put, hput, honScreen put hput⟩

end Ppu
end Handheld
