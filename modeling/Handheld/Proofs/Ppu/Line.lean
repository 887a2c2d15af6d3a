import Handheld.Proofs.Ppu.Transfer

/-!
The course of a scanline. A visible line is 80 dots of sprite search, one pixel transfer and a
horizontal blank for the rest, whatever is written on the way; no other line enters a blank.
-/

namespace Handheld.Ppu

namespace Progress

/-- A visible line after `n` of its dots, when `entered` blanks were entered before it. -/
inductive OnVisibleLine (s : Progress) (n entered : Nat) : Prop where
  | search (hn : n ≤ searchDots) (hmode : 0 < n → s.mode = .oamSearch)
      (hcount : s.hblankCount = entered)
  | transfer (cycles : Nat) (hpos : 0 < cycles) (hn : n = searchDots + cycles)
      (h : s.Transferring cycles) (hcount : s.hblankCount = entered)
  | blank (cycles : Nat) (hn : searchDots + cycles ≤ n) (h : s.Transferred cycles)
      (hcount : s.hblankCount = entered + 1)

/-- A visible line whose transfer takes `length` cycles, after `n` of its dots, when `entered`
blanks were entered before it. The last cycle of the transfer is also the dot on which the blank is
entered. -/
structure OnPlan (s : Progress) (length n entered : Nat) : Prop where
  search : 0 < n → n ≤ searchDots → s.mode = .oamSearch
  transfer : searchDots < n → n < searchDots + length →
    s.mode = .pixelTransfer ∧ s.transfer.cycles = n - searchDots
  blank : searchDots + length ≤ n →
    s.mode = .hblank ∧ s.transfer.cycles = length ∧ s.lastTransferCycles = length
  count : s.hblankCount = if n < searchDots + length then entered else entered + 1

theorem OnVisibleLine.onPlan_end {s : Progress} {entered : Nat}
    (h : s.OnVisibleLine dotsPerLine entered) :
    168 ≤ s.lastTransferCycles ∧ s.lastTransferCycles ≤ 291 ∧
      s.OnPlan s.lastTransferCycles dotsPerLine entered := by
  cases h with
  | search hn => simp [searchDots, dotsPerLine] at hn
  | transfer cycles _ hn h =>
    have hlt := h.lt
    simp only [searchDots, dotsPerLine] at hn
    omega
  | blank cycles hn h hcount =>
    have hlast := h.last
    have hfewest := h.fewest
    have hmost := h.most
    refine ⟨by omega, by omega, ?_, ?_, ?_, ?_⟩
    · intro _ hsearch
      simp [searchDots, dotsPerLine] at hsearch
    · intro _ htransfer
      omega
    · exact fun _ => ⟨h.mode, by rw [h.cycles, hlast], rfl⟩
    · rw [if_neg (by omega), hcount]

end Progress

open Progress

theorem drawDot_of_visible {p : Ppu} (hline : p.dot / dotsPerLine < screenHeight) :
    p.drawDot =
      (if p.dot % dotsPerLine = 0 then p.beginLine (p.dot / dotsPerLine) else p).visibleDot
        (p.dot % dotsPerLine) := by
  simp [drawDot, hline]

theorem drawDot_first {p : Ppu} (hline : p.dot / dotsPerLine < screenHeight)
    (hfirst : p.dot % dotsPerLine = 0) :
    p.drawDot = { p with ly := UInt8.ofNat (p.dot / dotsPerLine), mode := .oamSearch } := by
  rw [drawDot_of_visible hline, hfirst]
  simp [beginLine, hline, visibleDot, searchDots]

theorem drawDot_later {p : Ppu} (hline : p.dot / dotsPerLine < screenHeight)
    (hlater : 0 < p.dot % dotsPerLine) : p.drawDot = p.visibleDot (p.dot % dotsPerLine) := by
  rw [drawDot_of_visible hline, if_neg (by omega)]

theorem visibleDot_of_still {p : Ppu} {n : Nat} (hn : n ≠ searchDots)
    (hmode : p.mode ≠ .pixelTransfer) : p.visibleDot n = p := by
  simp [visibleDot, hn, hmode]

theorem visibleDot_of_transferring {p : Ppu} {n cycles : Nat} (hn : n ≠ searchDots)
    (h : p.progress.Transferring cycles) : p.visibleDot n = p.transferCycle := by
  have hmode : p.mode = .pixelTransfer := h.mode
  simp [visibleDot, hn, hmode]

theorem drawDot_onVisibleLine {p : Ppu} {entered : Nat}
    (hline : p.dot / dotsPerLine < screenHeight)
    (h : p.progress.OnVisibleLine (p.dot % dotsPerLine) entered) :
    p.drawDot.progress.OnVisibleLine (p.dot % dotsPerLine + 1) entered := by
  by_cases hfirst : p.dot % dotsPerLine = 0
  · rw [drawDot_first hline hfirst, hfirst]
    have hcount : p.hblankCount = entered := by
      rw [hfirst] at h
      cases h with
      | search _ _ hcount => exact hcount
      | transfer cycles hpos hn => simp only [searchDots] at hn; omega
      | blank cycles hn => simp only [searchDots] at hn; omega
    exact .search (by decide) (fun _ => rfl) hcount
  · rw [drawDot_later hline (by omega)]
    generalize hn : p.dot % dotsPerLine = n at h hfirst
    cases h with
    | search hle hmode hcount =>
      have hmode : p.mode = .oamSearch := hmode (by omega)
      by_cases hlast : n = searchDots
      · rw [visibleDot, if_pos hlast]
        exact .transfer 1 (by omega) (by omega) p.beginTransfer_transferring hcount
      · rw [visibleDot_of_still hlast (by simp [hmode])]
        exact .search (by omega) (fun _ => hmode) hcount
    | transfer cycles hpos hcycles h hcount =>
      rw [visibleDot_of_transferring (by omega) h]
      rcases transferCycle_progress h with ⟨hnext, hsame⟩ | ⟨hend, hmore⟩
      · exact .transfer (cycles + 1) (by omega) (by omega) hnext (hsame.trans hcount)
      · exact .blank (cycles + 1) (by omega) hend (hmore.trans (congrArg (· + 1) hcount))
    | blank cycles hle h hcount =>
      have hfewest := h.fewest
      have hmode : p.mode = .hblank := h.mode
      rw [visibleDot_of_still (by omega) (by simp [hmode])]
      exact .blank cycles (by omega) h hcount

theorem onPlan_of_drawDot {p : Ppu} {length entered : Nat} (hlength : 168 ≤ length)
    (hline : p.dot / dotsPerLine < screenHeight)
    (h : p.progress.OnVisibleLine (p.dot % dotsPerLine) entered)
    (hplan : p.drawDot.progress.OnPlan length (p.dot % dotsPerLine + 1) entered) :
    p.progress.OnPlan length (p.dot % dotsPerLine) entered := by
  generalize hn : p.dot % dotsPerLine = n at h hplan
  cases h with
  | search hle hmode hcount =>
    refine ⟨fun hpos _ => hmode hpos, fun _ _ => by omega, fun _ => by omega, ?_⟩
    rw [if_pos (by omega), hcount]
  | transfer cycles hpos hcycles h hcount =>
    rw [drawDot_later hline (by omega), hn, visibleDot_of_transferring (by omega) h] at hplan
    have hlt : cycles < length := by
      rcases Nat.lt_or_ge cycles length with hlt | hover
      · exact hlt
      have hblank := hplan.blank (by omega)
      rcases transferCycle_progress h with ⟨hnext, -⟩ | ⟨hend, -⟩
      · rw [hnext.mode] at hblank
        cases hblank.1
      · have hlast := hend.last.symm.trans hblank.2.2
        omega
    refine ⟨fun _ _ => by omega, fun _ _ => ⟨h.mode, by rw [h.cycles]; omega⟩,
      fun _ => by omega, ?_⟩
    rw [if_pos (by omega), hcount]
  | blank cycles hle h hcount =>
    have hfewest := h.fewest
    have hmode : p.mode = .hblank := h.mode
    rw [drawDot_later hline (by omega), hn,
      visibleDot_of_still (by omega) (by simp [hmode])] at hplan
    have hover : searchDots + length ≤ n + 1 := by
      rcases Nat.lt_or_ge (n + 1) (searchDots + length) with hunder | hover
      · have htransfer := (hplan.transfer (by omega) hunder).1
        rw [h.mode] at htransfer
        cases htransfer
      · exact hover
    have hlast := (hplan.blank hover).2.2
    rw [h.last] at hlast
    subst hlast
    refine ⟨fun _ _ => by omega, fun _ _ => by omega, fun _ => ⟨h.mode, h.cycles, h.last⟩, ?_⟩
    rw [if_neg (by omega), hcount]

/-- From anywhere in a visible line to its end, with any writes on the way, the line keeps to one
plan. -/
theorem exists_onPlan {p : Ppu} {line n entered : Nat} {actions : List Action}
    (hon : p.lcdEnabled) (hline : line < screenHeight)
    (hplace : n < dotsPerLine → p.dot = line * dotsPerLine + n)
    (h : p.progress.OnVisibleLine n entered) (hkeep : ∀ a ∈ actions, a.keepsOn)
    (hdots : n + dotsOf actions = dotsPerLine) :
    ∃ length, 168 ≤ length ∧ length ≤ 291 ∧ ∀ pre, pre <+: actions →
      (p.performAll pre).progress.OnPlan length (n + dotsOf pre) entered := by
  -- the length is known at the end of the line, so each dot takes the plan from the dots after it
  induction actions generalizing p n with
  | nil =>
    have hn : n = dotsPerLine := by simpa using hdots
    subst hn
    obtain ⟨hfewest, hmost, hplan⟩ := h.onPlan_end
    refine ⟨_, hfewest, hmost, fun pre hpre => ?_⟩
    rw [List.prefix_nil.mp hpre]
    exact hplan
  | cons a rest ih =>
    have hon' := perform_lcdEnabled hon (hkeep a (by simp))
    have hkeep' : ∀ b ∈ rest, b.keepsOn := fun b hb => hkeep b (by simp [hb])
    by_cases ha : a = .step
    · subst ha
      rw [dotsOf_step] at hdots
      have hdot := hplace (by omega)
      have hdiv : p.dot / dotsPerLine = line := by
        rw [hdot]; simp only [dotsPerLine] at hdots ⊢; omega
      have hmod : p.dot % dotsPerLine = n := by
        rw [hdot]; simp only [dotsPerLine] at hdots ⊢; omega
      have hnext : (p.perform .step).progress.OnVisibleLine (n + 1) entered := by
        change p.step.1.progress.OnVisibleLine _ _
        rw [step_progress hon, ← hmod]
        exact drawDot_onVisibleLine (by omega) (hmod.symm ▸ h)
      have hplace' : n + 1 < dotsPerLine →
          (p.perform .step).dot = line * dotsPerLine + (n + 1) := by
        intro hn
        have hstep : (p.perform .step).dot = _ := step_dot hon
        rw [hstep, if_neg, hdot, Nat.add_assoc]
        rw [hdot]
        simp only [dotsPerLine, screenHeight, cyclesPerFrame, linesPerFrame] at *; omega
      obtain ⟨length, hfewest, hmost, hplan⟩ := ih hon' hplace' hnext hkeep' (by omega)
      refine ⟨length, hfewest, hmost, fun pre hpre => ?_⟩
      rcases List.prefix_cons_iff.mp hpre with rfl | ⟨pre', rfl, hpre'⟩
      · have hfirst := hplan [] List.nil_prefix
        have hsame : (p.perform .step).progress = p.drawDot.progress := step_progress hon
        rw [performAll_nil, hsame, dotsOf_nil, Nat.add_zero, ← hmod] at hfirst
        rw [performAll_nil, dotsOf_nil, Nat.add_zero, ← hmod]
        exact onPlan_of_drawDot hfewest (by omega) (hmod.symm ▸ h) hfirst
      · rw [performAll_cons, dotsOf_step, show n + (dotsOf pre' + 1) = n + 1 + dotsOf pre' by omega]
        exact hplan pre' hpre'
    · obtain ⟨hsame, hdot, -⟩ := perform_write_frame hon (hkeep a (by simp)) ha
      rw [dotsOf_write ha] at hdots
      obtain ⟨length, hfewest, hmost, hplan⟩ :=
        ih hon' (fun hn => hdot.trans (hplace hn)) (hsame ▸ h) hkeep' hdots
      refine ⟨length, hfewest, hmost, fun pre hpre => ?_⟩
      rcases List.prefix_cons_iff.mp hpre with rfl | ⟨pre', rfl, hpre'⟩
      · have hfirst := hplan [] List.nil_prefix
        rw [performAll_nil, hsame] at hfirst
        exact hfirst
      · rw [performAll_cons, dotsOf_write ha]
        exact hplan pre' hpre'

/-- A picture unit that is on stands where its place in the frame says. -/
structure OnSchedule (p : Ppu) : Prop where
  dot_lt : p.dot < cyclesPerFrame
  visible : p.dot / dotsPerLine < screenHeight →
    ∃ entered, p.progress.OnVisibleLine (p.dot % dotsPerLine) entered
  vblank : vblankDot < p.dot → p.mode = .vblank

theorem onSchedule_of_dot_eq_zero {p : Ppu} (h : p.dot = 0) : p.OnSchedule where
  dot_lt := by rw [h]; decide
  visible _ := ⟨p.hblankCount, by rw [h]; exact .search (by decide) (by simp) rfl⟩
  vblank hlt := by omega

theorem drawDot_of_vblank {p : Ppu} (hline : vblankDot ≤ p.dot) :
    p.drawDot.hblankCount = p.hblankCount ∧ (p.dot = vblankDot → p.drawDot.mode = .vblank) ∧
      (p.mode = .vblank → p.drawDot.mode = .vblank) := by
  simp only [vblankDot, screenHeight, dotsPerLine] at hline
  have hnot : ¬ p.dot / dotsPerLine < screenHeight := by
    simp only [dotsPerLine, screenHeight]; omega
  simp only [drawDot, hnot, if_false, beginLine]
  split
  case isTrue hfirst =>
    split
    case isTrue hentry => exact ⟨rfl, fun _ => rfl, fun _ => rfl⟩
    case isFalse hentry =>
      refine ⟨rfl, fun hdot => ?_, id⟩
      rw [hdot] at hentry
      exact absurd rfl hentry
  case isFalse hfirst =>
    refine ⟨rfl, fun hdot => ?_, id⟩
    rw [hdot] at hfirst
    exact absurd rfl hfirst

theorem step_onSchedule {p : Ppu} (hon : p.lcdEnabled) (h : p.OnSchedule) :
    p.step.1.OnSchedule := by
  have hdot := step_dot hon
  have hprogress := step_progress hon
  by_cases hlast : p.dot + 1 = cyclesPerFrame
  · rw [if_pos hlast] at hdot
    exact onSchedule_of_dot_eq_zero hdot
  rw [if_neg hlast] at hdot
  have hlt := h.dot_lt
  refine ⟨by omega, fun hline => ?_, fun hover => ?_⟩
  · rw [hdot] at hline ⊢
    by_cases hnew : (p.dot + 1) % dotsPerLine = 0
    · rw [hnew]
      exact ⟨_, .search (by decide) (by simp) rfl⟩
    · have hdiv : p.dot / dotsPerLine = (p.dot + 1) / dotsPerLine := by
        simp only [dotsPerLine] at hnew ⊢; omega
      have hmod : (p.dot + 1) % dotsPerLine = p.dot % dotsPerLine + 1 := by
        simp only [dotsPerLine] at hnew ⊢; omega
      obtain ⟨entered, hvisible⟩ := h.visible (by omega)
      rw [hprogress, hmod]
      exact ⟨entered, drawDot_onVisibleLine (by omega) hvisible⟩
  · rw [hdot] at hover
    have hmode : p.step.1.mode = p.drawDot.mode := congrArg Progress.mode hprogress
    obtain ⟨-, hentry, hstay⟩ := drawDot_of_vblank (p := p) (by omega)
    rw [hmode]
    rcases Nat.lt_or_ge vblankDot p.dot with hinside | hfirst
    · exact hstay (h.vblank hinside)
    · exact hentry (by omega)

theorem OnSchedule.of_frame {p q : Ppu} (hprogress : q.progress = p.progress)
    (hdot : q.dot = p.dot) (h : p.OnSchedule) : q.OnSchedule := by
  have hmode : q.mode = p.mode := congrArg Progress.mode hprogress
  refine ⟨by rw [hdot]; exact h.dot_lt, ?_, ?_⟩
  · rw [hdot, hprogress]; exact h.visible
  · rw [hdot, hmode]; exact h.vblank

theorem perform_onSchedule {p : Ppu} {a : Action} (hon : p.lcdEnabled) (hkeep : a.keepsOn)
    (h : p.OnSchedule) : (p.perform a).OnSchedule := by
  by_cases ha : a = .step
  · subst ha
    exact step_onSchedule hon h
  · obtain ⟨hprogress, hdot, -⟩ := perform_write_frame hon hkeep ha
    exact h.of_frame hprogress hdot

theorem performAll_onSchedule {p : Ppu} {actions : List Action} (hon : p.lcdEnabled)
    (hkeep : ∀ a ∈ actions, a.keepsOn) (h : p.OnSchedule) :
    (p.performAll actions).OnSchedule := by
  induction actions generalizing p with
  | nil => exact h
  | cons a rest ih =>
    exact ih (perform_lcdEnabled hon (hkeep a (by simp))) (fun b hb => hkeep b (by simp [hb]))
      (perform_onSchedule hon (hkeep a (by simp)) h)

theorem performAll_of_vblank {p : Ppu} {n : Nat} {actions : List Action} (hon : p.lcdEnabled)
    (hline : vblankDot ≤ n) (hplace : n < cyclesPerFrame → p.dot = n)
    (hmode : vblankDot < n → p.mode = .vblank) (hkeep : ∀ a ∈ actions, a.keepsOn)
    (hdots : n + dotsOf actions ≤ cyclesPerFrame) :
    (p.performAll actions).hblankCount = p.hblankCount ∧
      (vblankDot < n + dotsOf actions → (p.performAll actions).mode = .vblank) := by
  induction actions generalizing p n with
  | nil => exact ⟨rfl, hmode⟩
  | cons a rest ih =>
    have hon' := perform_lcdEnabled hon (hkeep a (by simp))
    have hkeep' : ∀ b ∈ rest, b.keepsOn := fun b hb => hkeep b (by simp [hb])
    by_cases ha : a = .step
    · subst ha
      rw [dotsOf_step] at hdots ⊢
      have hdot := hplace (by omega)
      obtain ⟨hcount, hentry, hstay⟩ := drawDot_of_vblank (p := p) (by omega)
      have hprogress : (p.perform .step).progress = p.drawDot.progress := step_progress hon
      have hstep : (p.perform .step).dot = _ := step_dot hon
      have hmode' : (p.perform .step).mode = .vblank := by
        refine (congrArg Progress.mode hprogress).trans ?_
        rcases Nat.lt_or_ge vblankDot n with hinside | hfirst
        · exact hstay (hmode hinside)
        · exact hentry (by omega)
      obtain ⟨hsame, hlast⟩ := ih (n := n + 1) hon' (by omega)
        (fun hn => by rw [hstep, if_neg (by omega), hdot]) (fun _ => hmode') hkeep' (by omega)
      rw [performAll_cons, hsame, show n + (dotsOf rest + 1) = n + 1 + dotsOf rest by omega]
      exact ⟨(congrArg Progress.hblankCount hprogress).trans hcount, hlast⟩
    · obtain ⟨hprogress, hdot, -⟩ := perform_write_frame hon (hkeep a (by simp)) ha
      rw [dotsOf_write ha] at hdots ⊢
      obtain ⟨hsame, hlast⟩ := ih hon' hline (fun hn => hdot.trans (hplace hn))
        (fun hn => (congrArg Progress.mode hprogress).trans (hmode hn)) hkeep' hdots
      exact ⟨hsame.trans (congrArg Progress.hblankCount hprogress), hlast⟩

theorem place_of_line (k : Nat) : k * dotsPerLine % cyclesPerFrame =
    k % linesPerFrame * dotsPerLine := by
  rw [cyclesPerFrame, Nat.mul_comm dotsPerLine, Nat.mul_mod_mul_right]

/-- From the dot on which the display is switched on, and for as long as it stays on, every line
that is visible keeps to the plan that the length of its transfer gives, between 168 and 291 cycles;
on every other line no blank is entered. -/
theorem every_line_onPlan {p : Ppu} (hon : p.lcdEnabled) (hdot : p.dot = 0)
    {before line : List Action} (hkeep : ∀ a ∈ before ++ line, a.keepsOn) {k : Nat}
    (hbefore : dotsOf before = k * dotsPerLine) (hline : dotsOf line = dotsPerLine) :
    let start := p.performAll before
    let length := (start.performAll line).lastTransferCycles
    (k % linesPerFrame < screenHeight → 168 ≤ length ∧ length ≤ 291 ∧
      ∀ pre, pre <+: line → (start.performAll pre).progress.OnPlan length (dotsOf pre)
        start.hblankCount) ∧
    (screenHeight ≤ k % linesPerFrame → ∀ pre, pre <+: line →
      (start.performAll pre).hblankCount = start.hblankCount ∧
        (0 < dotsOf pre → (start.performAll pre).mode = .vblank)) := by
  intro start length
  have hkeepBefore : ∀ a ∈ before, a.keepsOn := fun a ha => hkeep a (by simp [ha])
  have hkeepLine : ∀ a ∈ line, a.keepsOn := fun a ha => hkeep a (by simp [ha])
  have hlines : k % linesPerFrame < linesPerFrame := Nat.mod_lt _ (by decide)
  have hstart : start.dot = k % linesPerFrame * dotsPerLine := by
    rw [← place_of_line, ← hbefore]
    simpa [hdot] using performAll_dot hon (by rw [hdot]; decide) hkeepBefore
  have hstartOn : start.lcdEnabled := performAll_lcdEnabled hon hkeepBefore
  have hschedule : start.OnSchedule :=
    performAll_onSchedule hon hkeepBefore (onSchedule_of_dot_eq_zero hdot)
  refine ⟨fun hvisible => ?_, fun hblank pre hpre => ?_⟩
  · have hfirst : start.progress.OnVisibleLine 0 start.hblankCount :=
      .search (by decide) (by simp) rfl
    obtain ⟨planned, hfewest, hmost, hplan⟩ := exists_onPlan hstartOn hvisible
      (fun _ => by rw [Nat.add_zero]; exact hstart) hfirst hkeepLine (by omega)
    simp only [Nat.zero_add] at hplan
    have hend := hplan line List.prefix_rfl
    have hlength : length = planned := by
      have hover : searchDots + planned ≤ dotsOf line := by
        rw [hline]; simp only [searchDots, dotsPerLine]; omega
      exact (hend.blank hover).2.2
    rw [hlength]
    exact ⟨hfewest, hmost, hplan⟩
  · obtain ⟨tail, rfl⟩ := hpre
    have hplace : vblankDot ≤ start.dot := by
      rw [hstart]; exact Nat.mul_le_mul_right _ hblank
    rw [dotsOf_append] at hline
    have hroom : start.dot + dotsOf pre ≤ cyclesPerFrame := by
      have hmul : (k % linesPerFrame + 1) * dotsPerLine ≤ linesPerFrame * dotsPerLine :=
        Nat.mul_le_mul_right _ hlines
      rw [hstart, cyclesPerFrame, Nat.mul_comm dotsPerLine]
      rw [Nat.add_mul, Nat.one_mul] at hmul
      omega
    obtain ⟨hcount, hmode⟩ := performAll_of_vblank hstartOn hplace (fun _ => rfl)
      hschedule.vblank (fun a ha => hkeepLine a (by simp [ha])) hroom
    exact ⟨hcount, fun hpos => hmode (by omega)⟩

/-- The first line after the start-up program, with the picture scrolled during its search and the
window moved to its left edge during its transfer. -/
def scrolledLine : List Action :=
  List.replicate 40 .step ++ .writeRegister 0xFF43 7 :: List.replicate 60 .step ++
    .writeRegister 0xFF4B 7 :: List.replicate 356 .step

theorem scrolledLine_onPlan :
    let start : Ppu := afterBoot { model := .color }
    let length := (start.performAll scrolledLine).lastTransferCycles
    start.lcdEnabled ∧ start.dot = 0 ∧ (∀ a ∈ [] ++ scrolledLine, a.keepsOn) ∧
      dotsOf [] = 0 * dotsPerLine ∧ dotsOf scrolledLine = dotsPerLine ∧
      168 ≤ length ∧ length ≤ 291 ∧
      ∀ pre, pre <+: scrolledLine →
        (start.performAll pre).progress.OnPlan length (dotsOf pre) 0 := by
  intro start length
  have hon : start.lcdEnabled := by decide
  have hkeep : ∀ a ∈ [] ++ scrolledLine, a.keepsOn := by
    intro a ha
    simp only [scrolledLine, List.nil_append, List.mem_append, List.mem_cons,
      List.mem_replicate] at ha
    rcases ha with (⟨-, rfl⟩ | rfl | ⟨-, rfl⟩) | rfl | ⟨-, rfl⟩ <;> rfl
  have hline : dotsOf scrolledLine = dotsPerLine := by
    rw [dotsOf, scrolledLine, List.count_append, List.count_append, List.count_cons,
      List.count_cons, List.count_replicate, List.count_replicate, List.count_replicate]
    rfl
  have hplan := (every_line_onPlan (k := 0) hon rfl hkeep rfl hline).1 (by decide)
  exact ⟨hon, rfl, hkeep, rfl, hline, hplan⟩

end Handheld.Ppu
