import Handheld.Proofs.Ppu.Line

/-!
Horizontal blanks: how far the one in progress still goes, and how a dot enters, stays in or leaves
one. A display that was ever switched on stands on its schedule whatever was done to the unit.
-/

namespace Handheld.Ppu

/-- Dots of the horizontal blank in progress that are still to come. -/
def blankLeft (p : Ppu) : Nat :=
  if p.mode = .hblank then (dotsPerLine - p.dot % dotsPerLine) % dotsPerLine else 0

inductive BlankStep (p q : Ppu) : Prop where
  | stay (hleft : p.blankLeft = q.blankLeft + 1) (hmode : q.mode = .hblank)
      (hcount : q.hblankCount = p.hblankCount)
  | leave (hleft : p.blankLeft = 0) (hmode : q.mode ≠ .hblank)
      (hcount : q.hblankCount = p.hblankCount)
  | enter (hleft : p.blankLeft = 0) (hmode : q.mode = .hblank)
      (hcount : q.hblankCount = p.hblankCount + 1) (hlong : 85 ≤ q.blankLeft)

theorem blankLeft_of_mode {p : Ppu} (h : p.mode ≠ .hblank) : p.blankLeft = 0 := if_neg h

theorem blankLeft_congr {p q : Ppu} (hprogress : q.progress = p.progress) (hdot : q.dot = p.dot) :
    q.blankLeft = p.blankLeft := by
  have hmode : q.mode = p.mode := congrArg Progress.mode hprogress
  rw [blankLeft, blankLeft, hmode, hdot]

theorem blankLeft_of_line {p : Ppu} (hmode : p.mode = .hblank) (hdot : 0 < p.dot % dotsPerLine) :
    p.blankLeft = dotsPerLine - p.dot % dotsPerLine := by
  rw [blankLeft, if_pos hmode]
  simp only [dotsPerLine] at hdot ⊢
  omega

theorem blankLeft_of_start {p : Ppu} (hdot : p.dot % dotsPerLine = 0) : p.blankLeft = 0 := by
  rw [blankLeft, hdot, Nat.sub_zero, Nat.mod_self, ite_self]

theorem OnSchedule.blank_of_late {p : Ppu} (h : p.OnSchedule)
    (hline : p.dot / dotsPerLine < screenHeight) (hlate : 371 ≤ p.dot % dotsPerLine) :
    p.mode = .hblank := by
  obtain ⟨entered, hvisible⟩ := h.visible hline
  cases hvisible with
  | search hn =>
    simp only [searchDots] at hn
    omega
  | transfer cycles _ hn h =>
    have hlt := h.lt
    simp only [searchDots] at hn
    omega
  | blank cycles _ h => exact h.mode

theorem blankStep_of_visible {p q : Ppu} {entered : Nat}
    (hline : p.dot / dotsPerLine < screenHeight)
    (h : p.progress.OnVisibleLine (p.dot % dotsPerLine) entered)
    (hprogress : q.progress = p.drawDot.progress) (hdot : q.dot = p.dot + 1) :
    BlankStep p q := by
  have hqmode : q.mode = p.drawDot.mode := congrArg Progress.mode hprogress
  have hqcount : q.hblankCount = p.drawDot.hblankCount := congrArg Progress.hblankCount hprogress
  by_cases hfirst : p.dot % dotsPerLine = 0
  · rw [drawDot_first hline hfirst] at hqmode hqcount
    exact .leave (blankLeft_of_start hfirst) (by simp [hqmode]) hqcount
  rw [drawDot_later hline (by omega)] at hqmode hqcount hprogress
  generalize hn : p.dot % dotsPerLine = n at *
  cases h with
  | search hle hmode hcount =>
    have hmode : p.mode = .oamSearch := hmode (by omega)
    have hleft : p.blankLeft = 0 := blankLeft_of_mode (by simp [hmode])
    by_cases hlast : n = searchDots
    · have htransfer : (p.visibleDot n).progress.Transferring 1 := by
        rw [visibleDot, if_pos hlast]
        exact p.beginTransfer_transferring
      have hmode' : (p.visibleDot n).mode = .pixelTransfer := htransfer.mode
      refine .leave hleft (by simp [hqmode, hmode']) (hqcount.trans ?_)
      rw [visibleDot, if_pos hlast]
      rfl
    · rw [visibleDot_of_still hlast (by simp [hmode])] at hqmode hqcount
      exact .leave hleft (by simp [hqmode, hmode]) hqcount
  | transfer cycles hpos hcycles h hcount =>
    have hmode : p.mode = .pixelTransfer := h.mode
    have hleft : p.blankLeft = 0 := blankLeft_of_mode (by simp [hmode])
    rw [visibleDot_of_transferring (by omega) h] at hqmode hqcount
    rcases transferCycle_progress h with ⟨hnext, hsame⟩ | ⟨hend, hmore⟩
    · have hmode' : p.transferCycle.mode = .pixelTransfer := hnext.mode
      exact .leave hleft (by simp [hqmode, hmode']) (hqcount.trans hsame)
    · have hmode' : q.mode = .hblank := hqmode.trans hend.mode
      have hmost := hend.most
      have hplace : q.dot % dotsPerLine = n + 1 := by
        simp only [searchDots, dotsPerLine] at *; omega
      refine .enter hleft hmode' (hqcount.trans hmore) ?_
      rw [blankLeft_of_line hmode' (by omega), hplace]
      simp only [searchDots, dotsPerLine] at *; omega
  | blank cycles hle h hcount =>
    have hfewest := h.fewest
    have hmode : p.mode = .hblank := h.mode
    rw [visibleDot_of_still (by omega) (by simp [hmode])] at hqmode hqcount
    refine .stay ?_ (hqmode.trans hmode) hqcount
    rw [blankLeft_of_line hmode (by omega), blankLeft, if_pos (hqmode.trans hmode), hdot, hn]
    simp only [dotsPerLine] at *; omega

/-- A dot of a display on its schedule enters a blank that lasts, or stays in one, or is outside. -/
theorem step_blankStep {p : Ppu} (hon : p.lcdEnabled) (h : p.OnSchedule) :
    BlankStep p p.step.1 := by
  have hprogress := step_progress hon
  have hdot := step_dot hon
  by_cases hline : p.dot / dotsPerLine < screenHeight
  · obtain ⟨entered, hvisible⟩ := h.visible hline
    refine blankStep_of_visible hline hvisible hprogress ?_
    rw [hdot, if_neg]
    simp only [dotsPerLine, screenHeight, cyclesPerFrame, linesPerFrame] at *; omega
  · have hplace : vblankDot ≤ p.dot := by
      simp only [vblankDot, dotsPerLine, screenHeight] at *; omega
    obtain ⟨hcount, hentry, hstay⟩ := drawDot_of_vblank hplace
    have hmode : p.step.1.mode = .vblank := by
      refine (congrArg Progress.mode hprogress).trans ?_
      rcases Nat.lt_or_ge vblankDot p.dot with hinside | hfirst
      · exact hstay (h.vblank hinside)
      · exact hentry (by omega)
    refine .leave ?_ (by simp [hmode]) ((congrArg Progress.hblankCount hprogress).trans hcount)
    rcases Nat.lt_or_ge vblankDot p.dot with hinside | hfirst
    · exact blankLeft_of_mode (by simp [h.vblank hinside])
    · have hfirst : p.dot = vblankDot := by omega
      exact blankLeft_of_start (by rw [hfirst]; decide)

theorem BlankStep.congr {p q q' : Ppu} (hprogress : q'.progress = q.progress)
    (hdot : q'.dot = q.dot) (h : BlankStep p q) : BlankStep p q' := by
  have hmode : q'.mode = q.mode := congrArg Progress.mode hprogress
  have hcount : q'.hblankCount = q.hblankCount := congrArg Progress.hblankCount hprogress
  have hblank := blankLeft_congr hprogress hdot
  cases h with
  | stay hleft hin hsame => exact .stay (hblank.symm ▸ hleft) (hmode.trans hin) (hcount.trans hsame)
  | leave hleft hout hsame =>
    exact .leave hleft (fun hin => hout (hmode.symm.trans hin)) (hcount.trans hsame)
  | enter hleft hin hmore hlong =>
    exact .enter hleft (hmode.trans hin) (hcount.trans hmore) (hblank.symm ▸ hlong)

theorem BlankStep.count_le {p q : Ppu} (h : BlankStep p q) : p.hblankCount ≤ q.hblankCount := by
  cases h with
  | stay _ _ hcount | leave _ _ hcount => exact Nat.le_of_eq hcount.symm
  | enter _ _ hcount => omega

def Scheduled (p : Ppu) : Prop := p.lcdEnabled → p.OnSchedule

theorem writeControl_scheduled {p : Ppu} (h : p.Scheduled) (v : UInt8) :
    (p.writeControl v).Scheduled := by
  intro hon'
  cases hv : v &&& 0x80 != 0 with
  | false =>
    rw [p.writeControl_off hv] at hon'
    cases hon'
  | true =>
    cases hon : p.lcdEnabled with
    | false => exact onSchedule_of_dot_eq_zero (writeControl_of_off hon hv).2
    | true =>
      rw [writeControl_of_on hon hv]
      exact OnSchedule.of_frame (p := p) rfl rfl (h hon)

theorem writeRegister_scheduled {p : Ppu} (h : p.Scheduled) (address : UInt16) (v : UInt8) :
    (p.writeRegister address v).Scheduled ∧
      (p.writeRegister address v).hblankCount = p.hblankCount := by
  by_cases haddress : address = 0xFF40
  · subst haddress
    exact ⟨writeControl_scheduled h v, p.writeControl_hblankCount v⟩
  · obtain ⟨hprogress, hdot, hon⟩ := p.writeRegister_other v haddress
    exact ⟨fun hon' => (h (hon.symm.trans hon')).of_frame hprogress hdot,
      congrArg Progress.hblankCount hprogress⟩

theorem perform_scheduled {p : Ppu} (h : p.Scheduled) (a : Action) :
    (p.perform a).Scheduled ∧ p.hblankCount ≤ (p.perform a).hblankCount := by
  cases a with
  | step =>
    cases hon : p.lcdEnabled with
    | false =>
      have hstill : p.perform .step = p := step_of_off hon
      rw [hstill]
      exact ⟨h, Nat.le_refl _⟩
    | true =>
      exact ⟨fun _ => step_onSchedule hon (h hon), (step_blankStep hon (h hon)).count_le⟩
  | writeVram address v => exact ⟨fun hon => .of_frame (p := p) rfl rfl (h hon), Nat.le_refl _⟩
  | writeOam i v => exact ⟨fun hon => .of_frame (p := p) rfl rfl (h hon), Nat.le_refl _⟩
  | writeRegister address v =>
    obtain ⟨hscheduled, hcount⟩ := writeRegister_scheduled h address v
    exact ⟨hscheduled, Nat.le_of_eq hcount.symm⟩

end Handheld.Ppu
