import Handheld.Proofs.Bus.Requests
import Handheld.Proofs.Ppu.EveryFrame

/-!
The timeline of a display that stays on. Its dots alone decide the line that a program reads and
when a vertical blank is entered; no write of a memory or a register moves either.
-/

namespace Handheld

namespace Bus

variable {σ : Type}

theorem stepPpu_requests_vblank (b : Bus σ) : b.stepPpu.interrupts.isRequested .vblank =
    (b.interrupts.isRequested .vblank || b.ppu.step.2.vblank) := by
  have hrequests : b.stepPpu.interrupts =
      (b.interrupts.raiseIf .vblank b.ppu.step.2.vblank).raiseIf .lcdStat b.ppu.step.2.stat := rfl
  simp [hrequests, Interrupts.isRequested_raiseIf]

theorem write_line [ExternalMemory σ] (b : Bus σ) (v : UInt8) : b.write 0xFF44 v = b := rfl

end Bus

namespace Ppu

/-- A display that is on, so many dots after the start of a frame. -/
structure After (p : Ppu) (n : Nat) : Prop where
  on : p.lcdEnabled
  dot : p.dot = n % cyclesPerFrame
  ly : 0 < n → p.ly = UInt8.ofNat ((n - 1) / dotsPerLine % linesPerFrame)

variable {p : Ppu} {n : Nat}

theorem beginLine_ly (p : Ppu) (line : Nat) : (p.beginLine line).ly = UInt8.ofNat line := by
  unfold beginLine
  dsimp only
  split
  · rfl
  split <;> rfl

theorem step_ly (hon : p.lcdEnabled) : p.step.1.ly =
    if p.dot % dotsPerLine = 0 then UInt8.ofNat (p.dot / dotsPerLine) else p.ly := by
  have hly : p.step.1.ly = p.drawDot.ly := congrArg Progress.ly (step_progress hon)
  rw [hly]
  unfold drawDot
  dsimp only
  split <;> split <;> simp only [visibleDot_frame, beginLine_ly]

theorem After.step (h : p.After n) : p.step.1.After (n + 1) where
  on := p.step_lcdEnabled.trans h.on
  dot := step_dot_mod h.on h.dot
  ly _ := by
    have hplace : n % cyclesPerFrame % dotsPerLine = n % dotsPerLine := Nat.mod_mul_right_mod ..
    have hcount : n % cyclesPerFrame / dotsPerLine = n / dotsPerLine % linesPerFrame :=
      Nat.mod_mul_right_div_self ..
    rw [step_ly h.on, h.dot, hplace, hcount, Nat.add_sub_cancel]
    split
    case isTrue => rfl
    case isFalse hinside =>
      have hpos : 0 < n := Nat.pos_of_ne_zero fun hzero => hinside (by rw [hzero]; rfl)
      have hline : (n - 1) / dotsPerLine = n / dotsPerLine := by
        simp only [dotsPerLine] at hinside ⊢
        omega
      rw [h.ly hpos, hline]

theorem After.write (h : p.After n) {a : Action} (hkeep : a.keepsOn) (ha : a ≠ .step) :
    (p.perform a).After n := by
  obtain ⟨hprogress, hdot, hon⟩ := perform_write_frame h.on hkeep ha
  have hly : (p.perform a).ly = p.ly := congrArg Progress.ly hprogress
  exact ⟨hon, hdot.trans h.dot, fun hpos => hly.trans (h.ly hpos)⟩

theorem After.performAll (h : p.After n) {actions : List Action}
    (hkeep : ∀ a ∈ actions, a.keepsOn) : (p.performAll actions).After (n + dotsOf actions) := by
  induction actions generalizing p n with
  | nil => exact h
  | cons a rest ih =>
    have hrest : ∀ b ∈ rest, b.keepsOn := fun b hb => hkeep b (by simp [hb])
    by_cases ha : a = .step
    · subst ha
      rw [dotsOf_step, Nat.add_comm (dotsOf rest), ← Nat.add_assoc]
      exact ih h.step hrest
    · rw [dotsOf_write ha]
      exact ih (h.write (hkeep a (by simp)) ha) hrest

/-- However the dots of a display that is switched on and stays on are mixed with writes, the line
read after them is told by their number, and the next dot enters a vertical blank if their number is
that of the dots of 144 lines in a frame, and otherwise not. A vertical blank is requested, the
frame counted and its picture handed out once on its entry, and at no other time; a write of the
line register does nothing. -/
theorem timeline_of_dots {σ : Type} [ExternalMemory σ] {p : Ppu} (hon : p.lcdEnabled)
    (hdot : p.dot = 0) {actions : List Action} (hkeep : ∀ a ∈ actions, a.keepsOn) :
    let now := p.performAll actions
    let n := dotsOf actions
    let entry := n % 70224 = 144 * 456
    (0 < n → (now.readRegister 0xFF44).toNat = (n - 1) / 456 % 154) ∧
    (∀ v, now.writeRegister 0xFF44 v = now) ∧
    (∀ a, a.keepsOn → a ≠ .step → (now.perform a).shown = now.shown) ∧
    now.step.2.vblank = decide entry ∧
    now.step.1.shown =
      (if entry then
        { frameCount := now.frameCount + 1
          video := now.video.map (·.tell (.frame now.step.1.frontBuffer)) }
      else now.shown) ∧
    ∀ b : Bus σ, b.ppu = now → (∀ v, b.write 0xFF44 v = b) ∧
      b.stepPpu.interrupts.isRequested .vblank =
        (b.interrupts.isRequested .vblank || decide entry) := by
  intro now n entry
  have hstart : p.After 0 := ⟨hon, hdot, fun hpos => absurd hpos (Nat.lt_irrefl 0)⟩
  have hnow : now.After n := by
    have hrun := hstart.performAll hkeep
    rwa [Nat.zero_add] at hrun
  have hentry : entry ↔ now.dot = vblankDot := by
    rw [hnow.dot]
    exact Iff.rfl
  have hvblank : now.step.2.vblank = decide entry := by
    rw [step_vblank hnow.on, Bool.beq_eq_decide_eq]
    exact decide_eq_decide.mpr hentry.symm
  refine ⟨fun hpos => ?_, fun _ => rfl, fun a hkeep ha =>
    (perform_write_frames hnow.on hkeep ha).2, hvblank, ?_, fun b hb => ⟨b.write_line, ?_⟩⟩
  · change now.ly.toNat = _
    rw [hnow.ly hpos]
    exact UInt8.toNat_ofNat_of_lt' (Nat.lt_trans (Nat.mod_lt _ (by decide)) (by decide))
  · split
    case isTrue h => exact (step_of_entry hnow.on (hentry.mp h)).2
    case isFalse h => exact step_shown_of_other hnow.on (mt hentry.mpr h)
  · rw [b.stepPpu_requests_vblank, hb, hvblank]

theorem secondFrame_then_vblank :
    let now := booted.performAll (firstFrame ++ secondFrame)
    booted.lcdEnabled ∧ booted.dot = 0 ∧ (∀ a ∈ firstFrame ++ secondFrame, a.keepsOn) ∧
      (now.readRegister 0xFF44).toNat = 143 ∧ now.step.2.vblank ∧
      now.step.1.shown =
        { frameCount := now.frameCount + 1
          video := now.video.map (·.tell (.frame now.step.1.frontBuffer)) } ∧
      ∀ b : Bus VolatileRam, b.ppu = now → b.stepPpu.interrupts.isRequested .vblank := by
  have hon : booted.lcdEnabled := by decide
  have hdots : dotsOf (firstFrame ++ secondFrame) = 135888 := by
    rw [dotsOf_append, dotsOf_firstFrame, dotsOf_secondFrame]
    rfl
  have hentry : 135888 % 70224 = 144 * 456 := by decide
  obtain ⟨hline, -, -, hvblank, hshown, hbus⟩ :=
    timeline_of_dots (σ := VolatileRam) (p := booted) hon rfl frames_keepOn
  rw [hdots] at hline hvblank hshown hbus
  rw [if_pos hentry] at hshown
  refine ⟨hon, rfl, frames_keepOn, hline (by decide), hvblank.trans (decide_eq_true hentry),
    hshown, fun b hb => ?_⟩
  rw [(hbus b hb).2, decide_eq_true hentry, Bool.or_true]

end Ppu
end Handheld
