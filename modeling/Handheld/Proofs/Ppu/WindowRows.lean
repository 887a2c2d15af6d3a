import Mathlib.Data.Nat.Nth
import Handheld.Proofs.Ppu.Composition
import Handheld.Proofs.Ppu.EveryFrame

/-!
The rows of the window. Of the lines of a frame some are the window's from a column on. The first of
them has row 0 of the window, and each has the row after that of the one before, whatever is written
while the frame is drawn. A monochrome console may still blank such a line; its row is then passed
over.
-/

namespace Handheld

structure WindowDot where
  put : Put
  row : Nat
  /-- The window shows there, and is not blanked with the background. -/
  lit : Bool
  deriving DecidableEq, Repr

def OwnsLine (dots : List WindowDot) (line : Nat) : Prop := ∃ d ∈ dots, d.put.y = line

instance (dots : List WindowDot) : DecidablePred (OwnsLine dots) :=
  fun line => inferInstanceAs (Decidable (∃ d ∈ dots, d.put.y = line))

namespace OwnsLine

variable {dots : List WindowDot} {d : WindowDot} {line : Nat}

theorem append_of_ne (h : line ≠ d.put.y) : OwnsLine (dots ++ [d]) line ↔ OwnsLine dots line := by
  constructor
  · rintro ⟨e, he, rfl⟩
    rcases List.mem_append.mp he with hbefore | hlast
    · exact ⟨e, hbefore, rfl⟩
    · exact absurd (congrArg (·.put.y) (List.mem_singleton.mp hlast)) h
  · rintro ⟨e, he, rfl⟩
    exact ⟨e, List.mem_append_left _ he, rfl⟩

theorem count_append (h : line ≤ d.put.y) :
    Nat.count (OwnsLine (dots ++ [d])) line = Nat.count (OwnsLine dots) line := by
  refine List.countP_congr fun y hy => ?_
  have hbelow : y < line := List.mem_range.mp hy
  have hsame : OwnsLine (dots ++ [d]) y ↔ OwnsLine dots y := append_of_ne (by omega)
  simpa using hsame

theorem exists_of_lt_count {k n : Nat} (h : k < Nat.count (OwnsLine dots) n) :
    ∃ line < n, OwnsLine dots line ∧ Nat.count (OwnsLine dots) line = k := by
  have hmany : ∀ hfinite : (Set.ofPred (OwnsLine dots)).Finite, k < hfinite.toFinset.card :=
    fun hfinite => h.trans_le (Nat.count_le_card hfinite n)
  exact ⟨_, Nat.nth_lt_of_lt_count h, Nat.nth_mem k hmany, Nat.count_nth hmany⟩

end OwnsLine

namespace Ppu

theorem step_windowLine {p : Ppu} (hon : p.lcdEnabled) : p.step.1.windowLine =
    if p.dot + 1 = cyclesPerFrame then 0 else p.drawDot.windowLine := by
  have hdot : p.drawDot.sampleStat.1.dot = p.dot := p.drawDot_frame.2.1
  rw [step_of_on hon, nextDot, hdot]
  split <;> rfl

theorem writeControl_of_switch {p : Ppu} {v : UInt8} (h : p.lcdEnabled ≠ (v &&& 0x80 != 0)) :
    (p.writeControl v).windowLine = 0 := by
  have hnext : Ppu.lcdEnabled { p with registers := { p.registers with lcdc := v } } =
    !p.lcdEnabled := Bool.eq_not.mpr h.symm
  unfold writeControl
  simp only [hnext]
  cases p.lcdEnabled <;> rfl

def FreshFrame (p : Ppu) : Prop := p.dot = 0 → p.windowLine = 0

theorem FreshFrame.perform {p : Ppu} (h : p.FreshFrame) (a : Action) :
    (p.perform a).FreshFrame := by
  cases a with
  | writeVram | writeOam => exact h
  | step =>
    cases hon : p.lcdEnabled with
    | false =>
      have hstill : p.perform .step = p := step_of_off hon
      rwa [hstill]
    | true =>
      intro hdot
      change p.step.1.dot = 0 at hdot
      rw [step_dot hon] at hdot
      refine (step_windowLine hon).trans (if_pos ?_)
      by_contra hmore
      simp [hmore] at hdot
  | writeRegister address v =>
    by_cases haddress : address = 0xFF40
    · subst haddress
      change (p.writeControl v).FreshFrame
      by_cases hsame : p.lcdEnabled = (v &&& 0x80 != 0)
      · rw [writeControl_of_same hsame]
        exact h
      · exact fun _ => writeControl_of_switch hsame
    · obtain ⟨_, _, _, _, hwrite, -⟩ := p.writeRegister_changes v haddress
      change (p.writeRegister address v).FreshFrame
      rw [hwrite]
      exact h

theorem FreshFrame.performAll {p : Ppu} (h : p.FreshFrame) (actions : List Action) :
    (p.performAll actions).FreshFrame := by
  induction actions generalizing p with
  | nil => exact h
  | cons a rest ih => exact ih (h.perform a)

/-- The pixel that the next dot puts, where the window has taken over. -/
def windowDot? (p : Ppu) : Option WindowDot :=
  if p.transfer.window then
    p.nextPut?.map fun put =>
      { put, row := p.windowLine.toNat, lit := p.model.isColor || p.registers.backgroundBit }
  else none

theorem windowDot?_eq_some {p : Ppu} {d : WindowDot} : p.windowDot? = some d ↔
    p.transfer.window ∧ p.nextPut? = some d.put ∧ d.row = p.windowLine.toNat ∧
      d.lit = (p.model.isColor || p.registers.backgroundBit) := by
  obtain ⟨put, row, lit⟩ := d
  unfold windowDot?
  split
  case isTrue hwindow =>
    rw [Option.map_eq_some_iff]
    constructor
    · rintro ⟨_, hput, heq⟩
      cases heq
      exact ⟨hwindow, hput, rfl, rfl⟩
    · rintro ⟨-, hput, rfl, rfl⟩
      exact ⟨put, hput, rfl⟩
  case isFalse hnot => exact ⟨nofun, fun hall => absurd hall.1 hnot⟩

def windowOver (p : Ppu) : List Action → List WindowDot
  | [] => []
  | .step :: rest => p.windowDot?.toList ++ p.step.1.windowOver rest
  | a :: rest => (p.perform a).windowOver rest

theorem windowOver_write {a : Action} (h : a ≠ .step) (p : Ppu) (rest : List Action) :
    p.windowOver (a :: rest) = (p.perform a).windowOver rest := by
  cases a with
  | step => exact absurd rfl h
  | _ => rfl

theorem mem_windowOver {p : Ppu} {actions : List Action} {d : WindowDot} :
    d ∈ p.windowOver actions ↔ ∃ pre rest, actions = pre ++ .step :: rest ∧
      (p.performAll pre).windowDot? = some d := by
  induction actions generalizing p with
  | nil => simp [windowOver]
  | cons a rest ih =>
    by_cases ha : a = .step
    · subst ha
      have hsplit : p.windowOver (.step :: rest) =
        p.windowDot?.toList ++ (p.perform .step).windowOver rest := rfl
      rw [hsplit, List.mem_append, Option.mem_toList, ih]
      constructor
      · rintro (hfirst | ⟨pre, tail, rfl, hlater⟩)
        · exact ⟨[], rest, rfl, hfirst⟩
        · exact ⟨.step :: pre, tail, rfl, hlater⟩
      · rintro ⟨pre, tail, hactions, hdot⟩
        cases pre with
        | nil => exact .inl hdot
        | cons b pre =>
          obtain ⟨rfl, rfl⟩ := List.cons.inj hactions
          exact .inr ⟨pre, tail, rfl, hdot⟩
    · rw [windowOver_write ha, ih]
      constructor
      · rintro ⟨pre, tail, rfl, hdot⟩
        exact ⟨a :: pre, tail, rfl, hdot⟩
      · rintro ⟨pre, tail, hactions, hdot⟩
        cases pre with
        | nil => exact absurd (List.cons.inj hactions).1 ha
        | cons b pre =>
          obtain ⟨rfl, rfl⟩ := List.cons.inj hactions
          exact ⟨pre, tail, rfl, hdot⟩

/-- What a pixel of the window shows behind the sprites: its row of the window's plane, or nothing
where it is blanked. -/
def windowPixel (p : Ppu) (d : WindowDot) : BackgroundPixel :=
  if d.lit then p.planePixel (p.selectedMap 6) (p.windowColumn d.put.x) d.row else {}

theorem backgroundPixel_of_windowDot {p : Ppu} {d : WindowDot} (h : p.windowDot? = some d) :
    p.backgroundPixel d.put.x = p.windowPixel d := by
  obtain ⟨hwindow, -, hrow, hlit⟩ := windowDot?_eq_some.mp h
  have hblanked := p.blanked_eq
  rw [← Bool.not_or, ← hlit] at hblanked
  rw [backgroundPixel_eq, windowPixel, backdrop, if_pos hwindow, hrow]
  cases hcase : d.lit with
  | true =>
    rw [hcase] at hblanked
    exact if_neg (of_decide_eq_false hblanked.symm)
  | false =>
    rw [hcase] at hblanked
    exact if_pos (of_decide_eq_true hblanked.symm)

/-- A pixel put shows a pixel behind the sprites: it has its number, and its color as far as no
sprite is in front. -/
structure Shows (p : Ppu) (put : Put) (behind : BackgroundPixel) : Prop where
  next : p.nextPut? = some put
  number : put.number = behind.number
  color : put.color = p.composed put.x behind
  bare : p.controlBit 1 = false → put.color = p.behindColor behind
  frames : p.step.1.frames = put.apply p.frames

theorem shows_of_windowDot {p : Ppu} (hdrawing : p.Drawing) {d : WindowDot}
    (h : p.windowDot? = some d) : p.Shows d.put (p.windowPixel d) := by
  obtain ⟨-, hput, -⟩ := windowDot?_eq_some.mp h
  obtain ⟨hcolumn, hframes⟩ := step_of_nextPut hdrawing hput
  have hbehind := backgroundPixel_of_windowDot h
  have hcolor : d.put.color = p.composed d.put.x (p.windowPixel d) := by
    rw [← hbehind, hcolumn]
    rfl
  refine ⟨hput, ?_, hcolor, fun hbare => ?_, hframes⟩
  · rw [← hbehind, hcolumn]
    rfl
  · have hshown : p.registers.spritesShown = false := (and_mask_ne_zero (n := 1) rfl _).trans hbare
    rw [hcolor, composed, hshown, if_neg Bool.false_ne_true, backgroundColor_eq_behindColor]

structure Owning (p : Ppu) : Prop where
  later : searchDots < p.dot % dotsPerLine
  mode : p.mode = .pixelTransfer
  window : p.transfer.window

theorem Owning.of_frame {p q : Ppu} (h : p.Owning) (hprogress : q.progress = p.progress)
    (hdot : q.dot = p.dot) : q.Owning := by
  have hmode : q.mode = p.mode := congrArg Progress.mode hprogress
  have htransfer : q.transfer = p.transfer := congrArg Progress.transfer hprogress
  exact ⟨hdot.symm ▸ h.later, hmode.trans h.mode, htransfer.symm ▸ h.window⟩

variable {p : Ppu}

theorem step_windowLine_of_visible (hon : p.lcdEnabled)
    (hline : p.dot / dotsPerLine < screenHeight) :
    p.step.1.windowLine = p.drawDot.windowLine ∧ p.step.1.dot = p.dot + 1 := by
  have hmore : p.dot + 1 ≠ cyclesPerFrame := by
    simp only [dotsPerLine, screenHeight, cyclesPerFrame, linesPerFrame] at *; omega
  rw [step_windowLine hon, step_dot hon, if_neg hmore, if_neg hmore]
  exact ⟨rfl, rfl⟩

theorem step_of_no_put (h : p.Drawing) (hline : p.dot / dotsPerLine < screenHeight)
    (hput : p.nextPut? = none) :
    p.step.1.windowLine = p.windowLine ∧ (p.Owning → p.step.1.Owning) := by
  obtain ⟨hrow, hdot⟩ := step_windowLine_of_visible h.on hline
  rw [hrow]
  obtain ⟨entered, hvisible⟩ := h.schedule.visible hline
  generalize hn : p.dot % dotsPerLine = n at hvisible
  cases hvisible with
  | search hsearch hmode =>
    refine ⟨?_, fun howning => absurd howning.later (by omega)⟩
    rcases Nat.eq_zero_or_pos n with hfirst | hlater
    · rw [drawDot_first hline (hn.trans hfirst)]
    · have hmode : p.mode = .oamSearch := hmode hlater
      rw [drawDot_later hline (by omega)]
      by_cases hlast : p.dot % dotsPerLine = searchDots
      · rw [visibleDot, if_pos hlast]
        rfl
      · rw [visibleDot_of_still hlast (by simp [hmode])]
  | transfer cycles hpos hcycles htransfer =>
    have hmode : p.mode = .pixelTransfer := htransfer.mode
    have hlt := htransfer.lt
    have hheld : p.unheld = false := by
      rw [nextPut?_of_transferring h.on hline (by omega) hmode] at hput
      by_contra hfree
      simp [hfree] at hput
    have hdraw : p.drawDot = p.transferCycle := by
      rw [drawDot_later hline (by omega), visibleDot_of_transferring (by omega) htransfer]
    have hprogress := step_progress h.on
    rw [hdraw] at hprogress ⊢
    obtain ⟨-, hstays, -, hsame, hkept⟩ := transferCycle_of_held hheld
    refine ⟨hsame, fun howning => ⟨?_, ?_, ?_⟩⟩
    · rw [hdot]
      simp only [searchDots, dotsPerLine] at *; omega
    · exact (congrArg Progress.mode hprogress).trans (hstays.trans hmode)
    · have htransfer : p.step.1.transfer = p.transferCycle.transfer :=
        congrArg Progress.transfer hprogress
      rw [htransfer]
      exact hkept howning.window
  | blank cycles hcycles htransferred =>
    have hmode : p.mode = .hblank := htransferred.mode
    have hfewest := htransferred.fewest
    refine ⟨?_, fun howning => ?_⟩
    · rw [drawDot_later hline (by omega), visibleDot_of_still (by omega) (by simp [hmode])]
    · have hother := howning.mode
      rw [hmode] at hother
      cases hother

/-- A dot that puts a pixel keeps the row until the line is at its end, and then counts a line that
is the window's. -/
theorem step_of_put (h : p.Drawing) {put : Put} (hput : p.nextPut? = some put) :
    (p.transfer.window → p.Owning) ∧
      p.step.1.windowLine = (if p.transfer.x + 1 = screenWidth ∧ p.transfer.window then
        p.windowLine + 1 else p.windowLine) ∧
      (p.transfer.x + 1 ≠ screenWidth → p.transfer.window → p.step.1.Owning) := by
  have hnext : p.inTransfer ∧ p.unheld := by
    rw [← Bool.and_eq_true]
    by_contra hnone
    simp [nextPut?, hnone] at hput
  have hin := hnext.1
  simp only [inTransfer, Bool.and_eq_true, decide_eq_true_eq, bne_iff_ne, beq_iff_eq] at hin
  obtain ⟨⟨⟨⟨-, hline⟩, hlater⟩, hbegun⟩, hmode⟩ := hin
  obtain ⟨hrow, hdot⟩ := step_windowLine_of_visible h.on hline
  have hprogress := step_progress h.on
  obtain ⟨entered, hvisible⟩ := h.schedule.visible hline
  generalize hn : p.dot % dotsPerLine = n at hvisible hlater hbegun
  cases hvisible with
  | search hsearch hother =>
    have hother : p.mode = .oamSearch := hother (by omega)
    rw [hother] at hmode
    cases hmode
  | transfer cycles hpos hcycles htransfer =>
    have hlt := htransfer.lt
    have hdraw : p.drawDot = p.countCycle.shiftOut p.transfer.x := by
      rw [drawDot_later hline (by omega), visibleDot_of_transferring (by omega) htransfer,
        transferCycle_of_unheld hnext.2]
    rw [hdraw] at hprogress hrow
    refine ⟨fun hwindow => ⟨by omega, hmode, hwindow⟩, ?_, fun hmore hwindow => ⟨?_, ?_, ?_⟩⟩
    · rw [hrow, shiftOut]
      by_cases hlast : p.transfer.x + 1 = screenWidth
      · rw [if_pos hlast]
        simp only [hlast, true_and]
        rfl
      · rw [if_neg hlast, if_neg (fun hboth => hlast hboth.1)]
        rfl
    · rw [hdot]
      simp only [searchDots, dotsPerLine] at *; omega
    · rw [shiftOut_of_more hmore] at hprogress
      exact (congrArg Progress.mode hprogress).trans hmode
    · rw [shiftOut_of_more hmore] at hprogress
      have hsame : p.step.1.transfer = { p.countCycle.transfer with x := p.transfer.x + 1 } :=
        congrArg Progress.transfer hprogress
      rw [hsame]
      exact hwindow
  | blank cycles hcycles htransferred =>
    have hother : p.mode = .hblank := htransferred.mode
    rw [hother] at hmode
    cases hmode

/-- A frame so many dots after its start, when these pixels of the window have been put. -/
structure Rowed (p : Ppu) (n : Nat) (dots : List WindowDot) : Prop where
  drawing : p.Drawing
  dot : n < cyclesPerFrame → p.dot = n
  rows : ∀ d ∈ dots, d.row = Nat.count (OwnsLine dots) d.put.y
  visible : ∀ d ∈ dots, d.put.y < screenHeight
  counter : n ≤ vblankDot → p.windowLine.toNat = Nat.count (OwnsLine dots) (p.drawn / screenWidth)
  below : n ≤ vblankDot → ∀ d ∈ dots,
    d.put.y < p.drawn / screenWidth ∨ (d.put.y = p.drawn / screenWidth ∧ p.Owning)

variable {n : Nat} {dots : List WindowDot}

theorem rowed_of_start (hon : p.lcdEnabled) (hdot : p.dot = 0) (hrow : p.windowLine = 0) :
    p.Rowed 0 [] where
  drawing := drawing_of_dot_eq_zero hon hdot
  dot _ := hdot
  rows := nofun
  visible := nofun
  counter _ := by
    rw [drawn_of_search (by omega) (by rw [hdot]; decide), hdot, hrow]
    simp
  below _ := nofun

theorem Rowed.write (h : p.Rowed n dots) {a : Action} (hkeep : a.keepsOn) (ha : a ≠ .step) :
    (p.perform a).Rowed n dots := by
  obtain ⟨hprogress, hdot, -⟩ := perform_write_frame h.drawing.on hkeep ha
  obtain ⟨hdrawing, hdrawn, -⟩ := perform_write_drawing h.drawing hkeep ha
  have hrow : (p.perform a).windowLine = p.windowLine := by
    obtain ⟨_, _, _, _, _, _, hwrite, -⟩ := perform_write_changes h.drawing.on hkeep ha
    rw [hwrite]
  refine ⟨hdrawing, fun hn => hdot.trans (h.dot hn), h.rows, h.visible, fun hn => ?_,
    fun hn d hd => ?_⟩
  · rw [hrow, hdrawn]
    exact h.counter hn
  · rw [hdrawn]
    exact (h.below hn d hd).imp_right fun hlast => ⟨hlast.1, hlast.2.of_frame hprogress hdot⟩

theorem windowDot?_of_no_put (hput : p.nextPut? = none) : p.windowDot? = none := by
  rw [windowDot?, hput]
  split <;> rfl

theorem windowDot?_of_background (hwindow : p.transfer.window = false) : p.windowDot? = none := by
  simp [windowDot?, hwindow]

theorem Rowed.rows_append (h : p.Rowed n dots) (hn : n ≤ vblankDot) {d : WindowDot}
    (hline : d.put.y = p.drawn / screenWidth) (hrow : d.row = p.windowLine.toNat) :
    ∀ e ∈ dots ++ [d], e.row = Nat.count (OwnsLine (dots ++ [d])) e.put.y := by
  intro e he
  rcases List.mem_append.mp he with hbefore | hlast
  · have habove : e.put.y ≤ d.put.y := by
      rcases h.below hn e hbefore with hlt | ⟨heq, -⟩ <;> omega
    rw [OwnsLine.count_append habove]
    exact h.rows e hbefore
  · obtain rfl := List.mem_singleton.mp hlast
    rw [OwnsLine.count_append (Nat.le_refl _), hrow, hline]
    exact h.counter hn

theorem line_after_put (hplace : p.columnPut.place = rasterPlace p.drawn) :
    (p.drawn + 1) / screenWidth = if p.transfer.x + 1 = screenWidth then p.drawn / screenWidth + 1
      else p.drawn / screenWidth := by
  have hcolumn : p.transfer.x = p.drawn % screenWidth := (Prod.mk.inj hplace).1
  by_cases hlast : p.transfer.x + 1 = screenWidth
  · rw [if_pos hlast]
    simp only [screenWidth] at hcolumn hlast ⊢; omega
  · rw [if_neg hlast]
    simp only [screenWidth] at hcolumn hlast ⊢; omega

theorem Rowed.put_background (h : p.Rowed n dots) (hn : n < vblankDot)
    (hput : p.nextPut? = some p.columnPut) (hplace : p.columnPut.place = rasterPlace p.drawn)
    (hdrawn : p.step.1.drawn = p.drawn + 1) (hwindow : p.transfer.window = false)
    (hdot : n + 1 < cyclesPerFrame → p.step.1.dot = n + 1) : p.step.1.Rowed (n + 1) dots := by
  obtain ⟨-, hrow, -⟩ := step_of_put h.drawing hput
  have habove : ∀ d ∈ dots, d.put.y < p.drawn / screenWidth := by
    intro d hd
    rcases h.below (by omega) d hd with hlt | ⟨-, howning⟩
    · exact hlt
    · rw [howning.window] at hwindow
      cases hwindow
  have hnot : ¬ OwnsLine dots (p.drawn / screenWidth) := by
    rintro ⟨d, hd, hline⟩
    have hlt := habove d hd
    omega
  rw [hwindow] at hrow
  simp only [Bool.false_eq_true, and_false, if_false] at hrow
  refine ⟨h.drawing.step, hdot, h.rows, h.visible, fun _ => ?_, fun _ d hd => .inl ?_⟩
  · rw [hrow, h.counter (by omega), hdrawn, line_after_put hplace]
    split
    case isTrue => rw [Nat.count_succ, if_neg hnot, Nat.add_zero]
    case isFalse => rfl
  · rw [hdrawn]
    exact Nat.lt_of_lt_of_le (habove d hd) (Nat.div_le_div_right (Nat.le_succ _))

theorem Rowed.put_window (h : p.Rowed n dots) (hn : n < vblankDot)
    (hput : p.nextPut? = some p.columnPut) (hplace : p.columnPut.place = rasterPlace p.drawn)
    (hdrawn : p.step.1.drawn = p.drawn + 1) (hwindow : p.transfer.window)
    (hvisible : p.dot / dotsPerLine < screenHeight)
    (hdot : n + 1 < cyclesPerFrame → p.step.1.dot = n + 1) :
    p.step.1.Rowed (n + 1) (dots ++ p.windowDot?.toList) := by
  obtain ⟨howning, hrow, hmore⟩ := step_of_put h.drawing hput
  have hline : p.columnPut.y = p.drawn / screenWidth := (Prod.mk.inj hplace).2
  have hly : p.columnPut.y = p.dot / dotsPerLine :=
    h.drawing.line hvisible (Nat.lt_of_le_of_lt (Nat.zero_le _) (howning hwindow).later)
  obtain ⟨d, hd, hput', hrow'⟩ : ∃ d, p.windowDot? = some d ∧ d.put.y = p.drawn / screenWidth ∧
      d.row = p.windowLine.toNat :=
    ⟨⟨p.columnPut, _, _⟩, windowDot?_eq_some.mpr ⟨hwindow, hput, rfl, rfl⟩, hline, rfl⟩
  rw [hd, Option.toList_some]
  have hcounted := h.counter (by omega)
  have hmost : p.windowLine.toNat ≤ p.drawn / screenWidth := hcounted ▸ Nat.count_le _
  have hsame : Nat.count (OwnsLine (dots ++ [d])) (p.drawn / screenWidth) =
      Nat.count (OwnsLine dots) (p.drawn / screenWidth) :=
    OwnsLine.count_append (Nat.le_of_eq hput'.symm)
  have howns : OwnsLine (dots ++ [d]) (p.drawn / screenWidth) :=
    ⟨d, List.mem_append_right _ (List.mem_singleton_self d), hput'⟩
  refine ⟨h.drawing.step, hdot, h.rows_append (by omega) hput' hrow', fun e he => ?_, fun _ => ?_,
    fun _ e he => ?_⟩
  · rcases List.mem_append.mp he with hbefore | hlast
    · exact h.visible e hbefore
    · rw [List.mem_singleton.mp hlast]
      omega
  · rw [hrow, hdrawn, line_after_put hplace]
    by_cases hlast : p.transfer.x + 1 = screenWidth
    · rw [if_pos ⟨hlast, hwindow⟩, if_pos hlast, Nat.count_succ, if_pos howns, hsame, ← hcounted,
        UInt8.toNat_add]
      simp only [screenHeight, UInt8.reduceToNat] at hvisible ⊢; omega
    · rw [if_neg (fun hboth => hlast hboth.1), if_neg hlast, hsame]
      exact hcounted
  · have habove : e.put.y ≤ p.drawn / screenWidth := by
      rcases List.mem_append.mp he with hbefore | hlast
      · rcases h.below (by omega) e hbefore with hlt | ⟨heq, -⟩ <;> omega
      · rw [List.mem_singleton.mp hlast, hput']
    rw [hdrawn, line_after_put hplace]
    by_cases hlast : p.transfer.x + 1 = screenWidth
    · rw [if_pos hlast]
      exact .inl (by omega)
    · rw [if_neg hlast]
      exact (Nat.lt_or_eq_of_le habove).imp_right fun heq => ⟨heq, hmore hlast hwindow⟩

theorem Rowed.step (h : p.Rowed n dots) (hn : n < cyclesPerFrame) :
    p.step.1.Rowed (n + 1) (dots ++ p.windowDot?.toList) := by
  have hplace := h.dot hn
  have hdot : n + 1 < cyclesPerFrame → p.step.1.dot = n + 1 := by
    intro hmore
    rw [step_dot h.drawing.on, hplace, if_neg (by omega)]
  rcases Nat.lt_or_ge n vblankDot with hvisible | hblank
  · have hline : p.dot / dotsPerLine < screenHeight := by
      rw [hplace]
      simp only [vblankDot, screenHeight, dotsPerLine] at hvisible ⊢; omega
    cases putStep h.drawing (by omega) with
    | wait hput _ hdrawn =>
      obtain ⟨hrow, howning⟩ := step_of_no_put h.drawing hline hput
      rw [windowDot?_of_no_put hput, Option.toList_none, List.append_nil]
      refine ⟨h.drawing.step, hdot, h.rows, h.visible, fun _ => ?_, fun _ d hd => ?_⟩
      · rw [hrow, hdrawn]
        exact h.counter (by omega)
      · rw [hdrawn]
        exact (h.below (by omega) d hd).imp_right fun hlast => ⟨hlast.1, howning hlast.2⟩
    | put hput _ hfirst hdrawn =>
      cases hwindow : p.transfer.window with
      | false =>
        rw [windowDot?_of_background hwindow, Option.toList_none, List.append_nil]
        exact h.put_background hvisible hput hfirst hdrawn hwindow hdot
      | true => exact h.put_window hvisible hput hfirst hdrawn hwindow hline hdot
  · have hin : p.inTransfer = false := by
      have hnot : ¬ p.dot / dotsPerLine < screenHeight := by
        rw [hplace]
        simp only [vblankDot, screenHeight, dotsPerLine] at hblank ⊢; omega
      simp [inTransfer, hnot]
    rw [windowDot?_of_no_put (nextPut?_of_waiting hin), Option.toList_none, List.append_nil]
    exact ⟨h.drawing.step, hdot, h.rows, h.visible, fun hearly => by omega, fun hearly => by omega⟩

theorem Rowed.performAll (h : p.Rowed n dots) {actions : List Action}
    (hkeep : ∀ a ∈ actions, a.keepsOn) (hdots : n + dotsOf actions ≤ cyclesPerFrame) :
    (p.performAll actions).Rowed (n + dotsOf actions) (dots ++ p.windowOver actions) := by
  induction actions generalizing p n dots with
  | nil =>
    rw [windowOver, List.append_nil]
    exact h
  | cons a rest ih =>
    have hrest : ∀ b ∈ rest, b.keepsOn := fun b hb => hkeep b (by simp [hb])
    by_cases ha : a = .step
    · subst ha
      rw [dotsOf_step] at hdots ⊢
      rw [Nat.add_comm (dotsOf rest), ← Nat.add_assoc] at hdots ⊢
      have hsplit : p.windowOver (.step :: rest) = p.windowDot?.toList ++ p.step.1.windowOver rest :=
        rfl
      rw [hsplit, ← List.append_assoc]
      exact ih (h.step (by omega)) hrest hdots
    · rw [dotsOf_write ha] at hdots ⊢
      rw [windowOver_write ha]
      exact ih (h.write (hkeep a (by simp)) ha) hrest hdots

theorem perform_model (p : Ppu) (a : Action) : (p.perform a).model = p.model := by
  cases a with
  | step => exact congrArg Contents.model p.step_contents
  | writeVram | writeOam => rfl
  | writeRegister address v =>
    by_cases haddress : address = 0xFF40
    · subst haddress
      change (p.writeControl v).model = _
      unfold writeControl
      dsimp only
      split
      · rfl
      split <;> rfl
    · obtain ⟨_, _, _, _, hwrite, -⟩ := p.writeRegister_changes v haddress
      rw [perform, hwrite]

theorem performAll_model (p : Ppu) (actions : List Action) :
    (p.performAll actions).model = p.model := by
  induction actions generalizing p with
  | nil => rfl
  | cons a rest ih => exact (ih _).trans (p.perform_model a)

/-- The counter is at the first row at the start of every frame and whenever the display is switched
off or on. In a frame, whatever is written that leaves the display on, every pixel of a line that
the window has taken over is taken from one row of the window, the number of earlier lines of the
frame of which it has taken over some pixel; the rows so taken are the first ones, each by one line.
Only a monochrome console blanks such a pixel, along with the background. -/
theorem window_rows_of_frame {p : Ppu} (hfresh : p.windowLine = 0) {past frame : List Action}
    (hon : (p.performAll past).lcdEnabled) (hdot : (p.performAll past).dot = 0)
    (hkeep : ∀ a ∈ frame, a.keepsOn) (hdots : dotsOf frame ≤ 70224) :
    let start := p.performAll past
    let dots := start.windowOver frame
    (∀ actions, ((p.performAll actions).dot = 0 → (p.performAll actions).windowLine = 0) ∧
      ∀ v, (p.performAll actions).lcdEnabled ≠ (v &&& 0x80 != 0) →
        ((p.performAll actions).perform (.writeRegister 0xFF40 v)).windowLine = 0) ∧
    (∀ put, (∃ d ∈ dots, d.put = put) ↔ ∃ pre rest, frame = pre ++ .step :: rest ∧
      (start.performAll pre).nextPut? = some put ∧ (start.performAll pre).transfer.window) ∧
    (∀ d ∈ dots, ∃ pre rest, frame = pre ++ .step :: rest ∧
      (start.performAll pre).Shows d.put ((start.performAll pre).windowPixel d)) ∧
    (∀ d ∈ dots, d.row = Nat.count (OwnsLine dots) d.put.y) ∧
    (∀ d ∈ dots, ∀ e ∈ dots, d.row = e.row ↔ d.put.y = e.put.y) ∧
    (∀ row, (∃ d ∈ dots, d.row = row) ↔ row < Nat.count (OwnsLine dots) screenHeight) ∧
    (p.model = .color → ∀ d ∈ dots, d.lit) := by
  intro start dots
  have hstarts (actions : List Action) : (p.performAll actions).FreshFrame :=
    FreshFrame.performAll (fun _ => hfresh) actions
  have hstart : start.windowLine = 0 := hstarts past hdot
  have hbegun : start.Rowed 0 [] := rowed_of_start hon hdot hstart
  have hrun : (start.performAll frame).Rowed (0 + dotsOf frame) ([] ++ dots) :=
    hbegun.performAll hkeep (by simp only [cyclesPerFrame, dotsPerLine, linesPerFrame]; omega)
  rw [List.nil_append] at hrun
  have hrows := hrun.rows
  have howns {d : WindowDot} (hd : d ∈ dots) : OwnsLine dots d.put.y := ⟨d, hd, rfl⟩
  refine ⟨fun actions => ⟨hstarts actions, fun v hswitch => writeControl_of_switch hswitch⟩,
    fun put => ?_, fun d hd => ?_, hrows, fun d hd e he => ?_, fun row => ?_, fun hcolor d hd => ?_⟩
  · constructor
    · rintro ⟨d, hd, rfl⟩
      obtain ⟨pre, rest, hframe, hnext⟩ := mem_windowOver.mp hd
      obtain ⟨hwindow, hput, -⟩ := windowDot?_eq_some.mp hnext
      exact ⟨pre, rest, hframe, hput, hwindow⟩
    · rintro ⟨pre, rest, hframe, hput, hwindow⟩
      exact ⟨⟨put, _, _⟩, mem_windowOver.mpr
        ⟨pre, rest, hframe, windowDot?_eq_some.mpr ⟨hwindow, hput, rfl, rfl⟩⟩, rfl⟩
  · obtain ⟨pre, rest, hframe, hnext⟩ := mem_windowOver.mp hd
    have hpre : ∀ a ∈ pre, a.keepsOn := fun a ha => hkeep a (by simp [hframe, ha])
    obtain ⟨hdrawing, -⟩ := performAll_frameCount hbegun.drawing hpre
    exact ⟨pre, rest, hframe, shows_of_windowDot hdrawing hnext⟩
  · rw [hrows d hd, hrows e he]
    exact ⟨Nat.count_injective (howns hd) (howns he), fun hline => by rw [hline]⟩
  · constructor
    · rintro ⟨d, hd, rfl⟩
      rw [hrows d hd]
      exact Nat.count_strict_mono (howns hd) (hrun.visible d hd)
    · intro hfew
      obtain ⟨line, -, ⟨d, hd, rfl⟩, hcount⟩ := OwnsLine.exists_of_lt_count hfew
      exact ⟨d, hd, (hrows d hd).trans hcount⟩
  · obtain ⟨pre, rest, -, hnext⟩ := mem_windowOver.mp hd
    obtain ⟨-, -, -, hlit⟩ := windowDot?_eq_some.mp hnext
    rw [hlit, performAll_model, performAll_model, hcolor]
    rfl

/-- A window over the whole screen of which only row 1 is solid, blanked on the first line between
its coming in and the first pixel. -/
def blankedLine : List Action :=
  [.writeRegister 0xFF40 0xB1, .writeRegister 0xFF4B 7, .writeRegister 0xFF42 4,
    .writeVram 2 0xFF] ++ List.replicate 90 .step ++
    (.writeRegister 0xFF40 0xB0 :: List.replicate 366 .step) ++
    (.writeRegister 0xFF40 0xB1 :: List.replicate 100 .step)

def grayBooted : Ppu := afterBoot { model := .monochrome }

/-- The window shows on no line before the second, which nevertheless shows its row 1. -/
theorem blankedLine_passes_row :
    let shown := (grayBooted.windowOver blankedLine).filter (·.lit)
    let written := grayBooted.performAll (blankedLine.take 4)
    grayBooted.lcdEnabled ∧ grayBooted.dot = 0 ∧ grayBooted.windowLine = 0 ∧
      (∀ a ∈ blankedLine, a.keepsOn) ∧ dotsOf blankedLine ≤ 70224 ∧
      (∀ x < 8, (written.planePixel (written.selectedMap 6) x 0).number = 0 ∧
        (written.planePixel (written.selectedMap 6) x 1).number = 1) ∧
      (∃ d ∈ shown, d.put.y = 1 ∧ d.row = 1 ∧ Nat.count (OwnsLine shown) d.put.y = 0) ∧
      ∀ d ∈ shown, d.row ≠ 0 ∧ d.put.number = 1 ∧ d.put.color = ⟨0, 0, 0⟩ := by
  have hplane : let written := grayBooted.performAll (blankedLine.take 4)
      ∀ x < 8, (written.planePixel (written.selectedMap 6) x 0).number = 0 ∧
        (written.planePixel (written.selectedMap 6) x 1).number = 1 := by decide +kernel
  have hshown : let shown := (grayBooted.windowOver blankedLine).filter (·.lit)
      (∃ d ∈ shown, d.put.y = 1 ∧ d.row = 1 ∧ Nat.count (OwnsLine shown) d.put.y = 0) ∧
      ∀ d ∈ shown, d.row ≠ 0 ∧ d.put.number = 1 ∧ d.put.color = ⟨0, 0, 0⟩ := by decide +kernel
  exact ⟨by decide, rfl, rfl, by decide +kernel, by decide +kernel, hplane, hshown⟩

theorem blankedLine_rows :
    let dots := grayBooted.windowOver blankedLine
    grayBooted.windowLine = 0 ∧ (grayBooted.performAll []).lcdEnabled ∧
      (grayBooted.performAll []).dot = 0 ∧ (∀ a ∈ blankedLine, a.keepsOn) ∧
      dotsOf blankedLine ≤ 70224 ∧
      (∃ d ∈ dots, d.put.y = 1 ∧ d.lit ∧ d.put.number = 1 ∧
        ∃ pre rest, blankedLine = pre ++ .step :: rest ∧
          (grayBooted.performAll pre).Shows d.put ((grayBooted.performAll pre).windowPixel d)) ∧
      ∀ d ∈ dots, d.row = Nat.count (OwnsLine dots) d.put.y := by
  intro dots
  have hkeep : ∀ a ∈ blankedLine, a.keepsOn := by decide +kernel
  have hdots : dotsOf blankedLine ≤ 70224 := by decide +kernel
  have hon : (grayBooted.performAll []).lcdEnabled := by decide
  have hdrawn : ∃ d ∈ dots, d.put.y = 1 ∧ d.lit ∧ d.put.number = 1 := by decide +kernel
  obtain ⟨-, -, hshows, hrows, -⟩ := window_rows_of_frame rfl hon rfl hkeep hdots
  obtain ⟨d, hd, hline, hlit, hnumber⟩ := hdrawn
  exact ⟨rfl, hon, rfl, hkeep, hdots, ⟨d, hd, hline, hlit, hnumber, hshows d hd⟩, hrows⟩

end Ppu
end Handheld
