import Mathlib.Data.List.Nodup
import Handheld.Proofs.Ppu.Line

/-!
The pixels that a dot puts into the picture being drawn, and where they fall. A frame puts every
pixel once, from the left to the right and from the top to the bottom, so the picture that the
vertical blank completes holds nothing of an older one.
-/

namespace Handheld

structure Put where
  x : Nat
  y : Nat
  color : Rgb
  /-- Color number of the background under it. -/
  number : Nat
  deriving DecidableEq, Repr

namespace Put

def place (put : Put) : Nat × Nat := (put.x, put.y)

def apply (f : FrameBuffers) (put : Put) : FrameBuffers := f.put put.x put.y put.color put.number

end Put

/-- The places of a picture, row by row. -/
def raster : List (Nat × Nat) :=
  (List.range screenHeight).flatMap fun y => (List.range screenWidth).map fun x => (x, y)

def rasterPlace (n : Nat) : Nat × Nat := (n % screenWidth, n / screenWidth)

theorem rasterPlace_row {line x : Nat} (hx : x < screenWidth) :
    rasterPlace (line * screenWidth + x) = (x, line) := by
  simp only [rasterPlace, screenWidth, Prod.mk.injEq] at hx ⊢
  omega

theorem rows_eq (rows : Nat) :
    ((List.range rows).flatMap fun y => (List.range screenWidth).map fun x => (x, y)) =
      (List.range (rows * screenWidth)).map rasterPlace := by
  induction rows with
  | zero => rfl
  | succ rows ih =>
    have hrow : (List.range screenWidth).map (fun x => (x, rows)) =
        ((List.range screenWidth).map (rows * screenWidth + ·)).map rasterPlace := by
      rw [List.map_map]
      exact List.map_congr_left fun x hx => (rasterPlace_row (List.mem_range.mp hx)).symm
    rw [List.range_succ, List.flatMap_append, ih, List.flatMap_singleton, hrow, Nat.succ_mul,
      List.range_add, List.map_append]

theorem raster_eq : raster = (List.range pixelCount).map rasterPlace := by
  rw [raster, rows_eq, pixelCount, Nat.mul_comm]

theorem rasterPlace_injective : Function.Injective rasterPlace := by
  intro m n h
  simp only [rasterPlace, screenWidth, Prod.mk.injEq] at h
  omega

theorem raster_nodup : raster.Nodup := by
  rw [raster_eq]
  exact List.nodup_range.map rasterPlace_injective

theorem mem_raster {x y : Nat} : (x, y) ∈ raster ↔ x < screenWidth ∧ y < screenHeight := by
  simp [raster, and_assoc, and_comm]

namespace Picture

theorem get_put_self (p : Picture) {x y : Nat} (hx : x < screenWidth) (hy : y < screenHeight)
    (c : Rgb) : (p.put x y c).get x y = c := by
  have hplace : y * screenWidth + x < pixelCount := by
    simp only [pixelCount, screenWidth, screenHeight] at hx hy ⊢
    omega
  generalize hn : y * screenWidth + x = n at hplace
  simp only [put, get, Memory.read_write, hn]
  congr 1 <;> grind

theorem get_put_of_ne (p : Picture) {x y x' y' : Nat} (hx : x < screenWidth)
    (hx' : x' < screenWidth) (h : (x, y) ≠ (x', y')) (c : Rgb) :
    (p.put x y c).get x' y' = p.get x' y' := by
  have hplace : y * screenWidth + x ≠ y' * screenWidth + x' := by
    intro heq
    refine h (Prod.ext ?_ ?_) <;> simp only [screenWidth] at hx hx' heq ⊢ <;> omega
  simp only [put, get, Memory.read_write]
  congr 1 <;> rw [if_neg (by omega), if_neg (by omega), if_neg (by omega)]

end Picture

namespace Put

def applyAll (puts : List Put) (f : FrameBuffers) : FrameBuffers := puts.foldl apply f

@[simp] theorem applyAll_nil (f : FrameBuffers) : applyAll [] f = f := rfl

@[simp] theorem applyAll_cons (put : Put) (rest : List Put) (f : FrameBuffers) :
    applyAll (put :: rest) f = applyAll rest (put.apply f) := rfl

def OnScreen (put : Put) : Prop := put.place ∈ raster

theorem applyAll_front (puts : List Put) (f : FrameBuffers) :
    (applyAll puts f).front = f.front := by
  induction puts generalizing f with
  | nil => rfl
  | cons put rest ih => exact ih _

theorem applyAll_get_of_not_mem {puts : List Put} (hscreen : ∀ put ∈ puts, put.OnScreen) {x y : Nat}
    (hx : x < screenWidth) (h : (x, y) ∉ puts.map place) (f : FrameBuffers) :
    (applyAll puts f).back.get x y = f.back.get x y := by
  induction puts generalizing f with
  | nil => rfl
  | cons put rest ih =>
    rw [List.map_cons, List.mem_cons, not_or] at h
    have hput : put.x < screenWidth := (mem_raster.mp (hscreen put (by simp))).1
    rw [applyAll_cons, ih (fun p hp => hscreen p (by simp [hp])) h.2]
    exact Picture.get_put_of_ne f.back hput hx (Ne.symm h.1) put.color

theorem applyAll_get {puts : List Put} (hscreen : ∀ put ∈ puts, put.OnScreen)
    (honce : (puts.map place).Nodup) {put : Put} (hput : put ∈ puts) (f : FrameBuffers) :
    (applyAll puts f).back.get put.x put.y = put.color := by
  induction puts generalizing f with
  | nil => cases hput
  | cons first rest ih =>
    rw [List.map_cons, List.nodup_cons] at honce
    have hrest : ∀ p ∈ rest, p.OnScreen := fun p hp => hscreen p (by simp [hp])
    rcases List.mem_cons.mp hput with rfl | hput
    · obtain ⟨hx, hy⟩ := mem_raster.mp (hscreen put (by simp))
      rw [applyAll_cons, applyAll_get_of_not_mem hrest hx honce.1]
      exact Picture.get_put_self f.back hx hy put.color
    · exact ih hrest honce.2 hput _

end Put

namespace Ppu

def columnPut (p : Ppu) : Put :=
  let bg := p.backgroundPixel p.transfer.x
  { x := p.transfer.x
    y := p.ly.toNat
    color := p.composed p.transfer.x bg
    number := bg.number }

/-- Nothing holds the transfer up: no fetch, no stall, no window and no sprite that starts here. -/
def unheld (p : Ppu) : Bool :=
  !p.fetcher.busy && p.transfer.stall == 0 &&
    (p.transfer.window || !p.windowCovers p.transfer.x) &&
    (p.waitingSprite? p.transfer.x).isNone

/-- The next dot is a cycle of a pixel transfer, and not the first. -/
def inTransfer (p : Ppu) : Bool :=
  p.lcdEnabled && p.dot / dotsPerLine < screenHeight && p.dot % dotsPerLine != 0 &&
    p.dot % dotsPerLine != searchDots && p.mode == .pixelTransfer

/-- The pixel that the next dot puts. -/
def nextPut? (p : Ppu) : Option Put :=
  if p.inTransfer && p.unheld then some p.columnPut else none

def putsOver (p : Ppu) : List Action → List Put
  | [] => []
  | .step :: rest => p.nextPut?.toList ++ p.step.1.putsOver rest
  | a :: rest => (p.perform a).putsOver rest

theorem putsOver_write {a : Action} (h : a ≠ .step) (p : Ppu) (rest : List Action) :
    p.putsOver (a :: rest) = (p.perform a).putsOver rest := by
  cases a with
  | step => exact absurd rfl h
  | _ => rfl

theorem transferCycle_of_unheld {p : Ppu} (h : p.unheld) :
    p.transferCycle = p.countCycle.shiftOut p.transfer.x := by
  simp only [unheld, Bool.and_eq_true, Bool.not_eq_true', beq_iff_eq, Bool.or_eq_true,
    Option.isNone_iff_eq_none] at h
  obtain ⟨⟨⟨hidle, hstall⟩, hwindow⟩, hsprite⟩ := h
  have hnone : p.countCycle.waitingSprite? p.transfer.x = none := hsprite
  have hstays :
      (!p.countCycle.transfer.window && p.countCycle.windowCovers p.transfer.x) = false := by
    change (!p.transfer.window && p.windowCovers p.transfer.x) = false
    rcases hwindow with hin | hout
    · rw [hin]; rfl
    · rw [hout, Bool.and_false]
  rw [transferCycle_eq, hidle, hstall, advance, hstays, hnone]
  rfl

/-- A cycle that is held up puts nothing, stays in its column and row, and does not take the line from
the window. -/
theorem transferCycle_of_held {p : Ppu} (h : p.unheld = false) :
    p.transferCycle.frames = p.frames ∧ p.transferCycle.mode = p.mode ∧
      p.transferCycle.transfer.x = p.transfer.x ∧ p.transferCycle.windowLine = p.windowLine ∧
      (p.transfer.window → p.transferCycle.transfer.window) := by
  rw [transferCycle_eq]
  split
  case isTrue => exact ⟨rfl, rfl, rfl, rfl, id⟩
  case isFalse hidle =>
    split
    case isTrue => exact ⟨rfl, rfl, rfl, rfl, id⟩
    case isFalse hstall =>
      unfold advance
      split
      case isTrue => exact ⟨rfl, rfl, rfl, rfl, fun _ => rfl⟩
      case isFalse hwindow =>
        split
        case h_1 => exact ⟨rfl, rfl, rfl, rfl, id⟩
        case h_2 hnone =>
          have hnone : p.waitingSprite? p.transfer.x = none := hnone
          have hwindow : ¬(!p.transfer.window && p.windowCovers p.transfer.x) := hwindow
          have hfree : p.unheld := by
            cases hin : p.transfer.window <;> simp_all [unheld]
          rw [hfree] at h
          cases h

theorem nextPut?_of_waiting {p : Ppu} (h : p.inTransfer = false) : p.nextPut? = none := by
  simp [nextPut?, h]

theorem nextPut?_of_transferring {p : Ppu} (hon : p.lcdEnabled)
    (hline : p.dot / dotsPerLine < screenHeight) (hlater : searchDots < p.dot % dotsPerLine)
    (hmode : p.mode = .pixelTransfer) :
    p.nextPut? = if p.unheld then some p.columnPut else none := by
  have hin : p.inTransfer = true := by
    simp only [inTransfer, hon, hmode, Bool.true_and, Bool.and_eq_true, decide_eq_true_eq,
      bne_iff_ne, beq_iff_eq, and_true]
    exact ⟨⟨hline, by omega⟩, by omega⟩
  simp [nextPut?, hin]

def columnsDrawn (p : Ppu) : Nat :=
  if p.dot % dotsPerLine ≤ searchDots then 0
  else if p.mode = .pixelTransfer then p.transfer.x
  else screenWidth

def drawn (p : Ppu) : Nat :=
  if vblankDot < p.dot then 0 else p.dot / dotsPerLine * screenWidth + p.columnsDrawn

/-- A display that is on, on its schedule, and that shows the number of its line. -/
structure Drawing (p : Ppu) : Prop where
  on : p.lcdEnabled
  schedule : p.OnSchedule
  line : p.dot / dotsPerLine < screenHeight → 0 < p.dot % dotsPerLine →
    p.ly.toNat = p.dot / dotsPerLine

theorem drawing_of_dot_eq_zero {p : Ppu} (hon : p.lcdEnabled) (hdot : p.dot = 0) : p.Drawing where
  on := hon
  schedule := onSchedule_of_dot_eq_zero hdot
  line _ hlater := by rw [hdot] at hlater; cases hlater

theorem drawDot_ly {p : Ppu} (hline : p.dot / dotsPerLine < screenHeight)
    (h : 0 < p.dot % dotsPerLine → p.ly.toNat = p.dot / dotsPerLine) :
    p.drawDot.ly.toNat = p.dot / dotsPerLine := by
  rcases Nat.eq_zero_or_pos (p.dot % dotsPerLine) with hfirst | hlater
  · rw [drawDot_first hline hfirst]
    simp only [screenHeight] at hline
    exact UInt8.toNat_ofNat_of_lt' (by simp only [UInt8.size]; omega)
  · rw [drawDot_later hline hlater, (p.visibleDot_frame _).2.2.2, h hlater]

theorem Drawing.step {p : Ppu} (h : p.Drawing) : p.step.1.Drawing where
  on := p.step_lcdEnabled.trans h.on
  schedule := step_onSchedule h.on h.schedule
  line hline hlater := by
    have hly : p.step.1.ly = p.drawDot.ly := congrArg Progress.ly (step_progress h.on)
    rw [step_dot h.on] at hline hlater ⊢
    by_cases hlast : p.dot + 1 = cyclesPerFrame
    · rw [if_pos hlast] at hlater
      exact absurd hlater (by decide)
    · rw [if_neg hlast] at hline hlater ⊢
      have hdiv : p.dot / dotsPerLine = (p.dot + 1) / dotsPerLine := by
        simp only [dotsPerLine] at hlater ⊢; omega
      rw [← hdiv] at hline ⊢
      rw [hly]
      exact drawDot_ly hline (h.line hline)

theorem Drawing.of_frame {p q : Ppu} (h : p.Drawing) (hprogress : q.progress = p.progress)
    (hdot : q.dot = p.dot) (hon : q.lcdEnabled) : q.Drawing where
  on := hon
  schedule := h.schedule.of_frame hprogress hdot
  line := by
    have hly : q.ly = p.ly := congrArg Progress.ly hprogress
    rw [hdot, hly]
    exact h.line

theorem drawn_congr {p q : Ppu} (hprogress : q.progress = p.progress) (hdot : q.dot = p.dot) :
    q.drawn = p.drawn := by
  have hmode : q.mode = p.mode := congrArg Progress.mode hprogress
  have htransfer : q.transfer = p.transfer := congrArg Progress.transfer hprogress
  simp only [drawn, columnsDrawn, hdot, hmode, htransfer]

theorem drawn_of_vblank {p : Ppu} (hdot : vblankDot < p.dot) : p.drawn = 0 := if_pos hdot

theorem drawn_of_search {p : Ppu} (hdot : p.dot ≤ vblankDot)
    (hsearch : p.dot % dotsPerLine ≤ searchDots) :
    p.drawn = p.dot / dotsPerLine * screenWidth := by
  rw [drawn, columnsDrawn, if_neg (by omega), if_pos hsearch, Nat.add_zero]

theorem drawn_of_transfer {p : Ppu} (hline : p.dot / dotsPerLine < screenHeight)
    (hlater : searchDots < p.dot % dotsPerLine) (hmode : p.mode = .pixelTransfer) :
    p.drawn = p.dot / dotsPerLine * screenWidth + p.transfer.x := by
  have hplace : ¬ vblankDot < p.dot := by
    simp only [vblankDot, dotsPerLine, screenHeight] at *; omega
  rw [drawn, columnsDrawn, if_neg hplace, if_neg (by omega), if_pos hmode]

theorem drawn_of_blank {p : Ppu} (hline : p.dot / dotsPerLine < screenHeight)
    (hlater : searchDots < p.dot % dotsPerLine) (hmode : p.mode = .hblank) :
    p.drawn = (p.dot / dotsPerLine + 1) * screenWidth := by
  have hplace : ¬ vblankDot < p.dot := by
    simp only [vblankDot, dotsPerLine, screenHeight] at *; omega
  rw [drawn, columnsDrawn, if_neg hplace, if_neg (by omega), if_neg (by simp [hmode]),
    Nat.succ_mul]

inductive PutStep (p : Ppu) : Prop where
  | wait (hput : p.nextPut? = none) (hframes : p.step.1.frames = p.frames)
      (hdrawn : p.step.1.drawn = p.drawn)
  | put (hput : p.nextPut? = some p.columnPut)
      (hframes : p.step.1.frames = p.columnPut.apply p.frames)
      (hplace : p.columnPut.place = rasterPlace p.drawn) (hdrawn : p.step.1.drawn = p.drawn + 1)

theorem nextDot_frames (p : Ppu) : p.nextDot.frames = p.frames := by
  unfold nextDot
  split <;> rfl

theorem step_frames {p : Ppu} (hon : p.lcdEnabled) : p.step.1.frames = p.drawDot.frames := by
  rw [step_of_on hon, nextDot_frames]
  rfl

theorem shiftOut_frames (p : Ppu) :
    (p.countCycle.shiftOut p.transfer.x).frames = p.columnPut.apply p.frames := by
  unfold shiftOut
  dsimp only
  split <;> rfl

theorem putStep_of_search {p : Ppu} (h : p.Drawing) (hline : p.dot / dotsPerLine < screenHeight)
    (hsearch : p.dot % dotsPerLine < searchDots)
    (hmode : 0 < p.dot % dotsPerLine → p.mode = .oamSearch) (hdot : p.step.1.dot = p.dot + 1) :
    PutStep p := by
  have hin : p.inTransfer = false := by
    rcases Nat.eq_zero_or_pos (p.dot % dotsPerLine) with hfirst | hlater
    · simp [inTransfer, hfirst]
    · simp [inTransfer, hmode hlater]
  have hframes : p.drawDot.frames = p.frames := by
    rcases Nat.eq_zero_or_pos (p.dot % dotsPerLine) with hfirst | hlater
    · rw [drawDot_first hline hfirst]
    · rw [drawDot_later hline hlater,
        visibleDot_of_still (Nat.ne_of_lt hsearch) (by simp [hmode hlater])]
  refine .wait (nextPut?_of_waiting hin) ((step_frames h.on).trans hframes) ?_
  have hsame : p.step.1.dot / dotsPerLine = p.dot / dotsPerLine := by
    simp only [hdot, searchDots, dotsPerLine] at hsearch ⊢; omega
  simp only [searchDots, dotsPerLine, screenHeight] at hsearch hline
  rw [drawn_of_search (p := p.step.1), drawn_of_search (p := p), hsame]
  all_goals simp only [hdot, vblankDot, screenHeight, dotsPerLine, searchDots]; omega

theorem putStep_of_begin {p : Ppu} (h : p.Drawing) (hline : p.dot / dotsPerLine < screenHeight)
    (hlast : p.dot % dotsPerLine = searchDots) (hdot : p.step.1.dot = p.dot + 1) : PutStep p := by
  have hin : p.inTransfer = false := by simp [inTransfer, hlast]
  have hdraw : p.drawDot = p.beginTransfer := by
    rw [drawDot_later hline (by rw [hlast]; decide), visibleDot, if_pos hlast]
  have hprogress := step_progress h.on
  rw [hdraw] at hprogress
  have hmode : p.step.1.mode = .pixelTransfer := congrArg Progress.mode hprogress
  have hcolumn : p.step.1.transfer.x = 0 := congrArg (fun s => s.transfer.x) hprogress
  refine .wait (nextPut?_of_waiting hin) ?_ ?_
  · rw [step_frames h.on, hdraw]
    rfl
  · have hsame : p.step.1.dot / dotsPerLine = p.dot / dotsPerLine := by
      simp only [hdot, searchDots, dotsPerLine] at hlast ⊢; omega
    rw [drawn_of_transfer _ _ hmode, drawn_of_search (p := p), hcolumn, hsame, Nat.add_zero]
    all_goals simp only [hdot, vblankDot, searchDots, dotsPerLine, screenHeight] at *; omega

theorem putStep_of_transfer {p : Ppu} {cycles : Nat} (h : p.Drawing)
    (hline : p.dot / dotsPerLine < screenHeight)
    (hcycles : p.dot % dotsPerLine = searchDots + cycles)
    (hpos : 0 < cycles) (htransfer : p.progress.Transferring cycles)
    (hdot : p.step.1.dot = p.dot + 1) : PutStep p := by
  have hlater : searchDots < p.dot % dotsPerLine := by omega
  have hmode : p.mode = .pixelTransfer := htransfer.mode
  have hcolumn : p.transfer.x < screenWidth := htransfer.column
  have hlt := htransfer.lt
  have hdraw : p.drawDot = p.transferCycle := by
    rw [drawDot_later hline (by omega), visibleDot_of_transferring (by omega) htransfer]
  have hnext := nextPut?_of_transferring h.on hline hlater hmode
  have hframes := step_frames h.on
  have hprogress := step_progress h.on
  have hdrawn := drawn_of_transfer hline hlater hmode
  have hly := h.line hline (by omega)
  -- the transfer ends before its line does, so the next dot is on the same line
  have hsame : p.step.1.dot / dotsPerLine = p.dot / dotsPerLine ∧
      searchDots < p.step.1.dot % dotsPerLine := by
    simp only [hdot, searchDots, dotsPerLine] at hcycles ⊢; omega
  have hline' : p.step.1.dot / dotsPerLine < screenHeight := by omega
  rw [hdraw] at hframes hprogress
  cases hfree : p.unheld with
  | false =>
    obtain ⟨hkept, hmode', hcolumn', -, -⟩ := transferCycle_of_held hfree
    have hmode'' : p.step.1.mode = .pixelTransfer :=
      (congrArg Progress.mode hprogress).trans (hmode'.trans hmode)
    have hcolumn'' : p.step.1.transfer.x = p.transfer.x :=
      (congrArg (fun s => s.transfer.x) hprogress).trans hcolumn'
    refine .wait (by simp [hnext, hfree]) (hframes.trans hkept) ?_
    rw [drawn_of_transfer hline' hsame.2 hmode'', hdrawn, hsame.1, hcolumn'']
  | true =>
    rw [transferCycle_of_unheld hfree] at hframes hprogress
    rw [shiftOut_frames] at hframes
    refine .put (by simp [hnext, hfree]) hframes ?_ ?_
    · rw [hdrawn, rasterPlace_row hcolumn, ← hly]
      rfl
    · by_cases hlast : p.transfer.x + 1 = screenWidth
      · rw [shiftOut, if_pos hlast] at hprogress
        have hmode' : p.step.1.mode = .hblank := congrArg Progress.mode hprogress
        rw [drawn_of_blank hline' hsame.2 hmode', hdrawn, hsame.1, Nat.succ_mul, Nat.add_assoc,
          hlast]
      · rw [shiftOut, if_neg hlast] at hprogress
        have hmode' : p.step.1.mode = .pixelTransfer :=
          (congrArg Progress.mode hprogress).trans hmode
        have hcolumn' : p.step.1.transfer.x = p.transfer.x + 1 :=
          congrArg (fun s => s.transfer.x) hprogress
        rw [drawn_of_transfer hline' hsame.2 hmode', hdrawn, hsame.1, hcolumn', Nat.add_assoc]

theorem putStep_of_blank {p : Ppu} (h : p.Drawing) (hline : p.dot / dotsPerLine < screenHeight)
    (hlater : searchDots < p.dot % dotsPerLine) (hmode : p.mode = .hblank)
    (hdot : p.step.1.dot = p.dot + 1) : PutStep p := by
  have hdraw : p.drawDot = p := by
    rw [drawDot_later hline (by omega), visibleDot_of_still (by omega) (by simp [hmode])]
  have hprogress := step_progress h.on
  rw [hdraw] at hprogress
  have hmode' : p.step.1.mode = .hblank := (congrArg Progress.mode hprogress).trans hmode
  refine .wait (nextPut?_of_waiting (by simp [inTransfer, hmode])) ?_ ?_
  · rw [step_frames h.on, hdraw]
  rw [drawn_of_blank hline hlater hmode]
  by_cases hnew : (p.dot + 1) % dotsPerLine = 0
  · have hnext : (p.dot + 1) / dotsPerLine = p.dot / dotsPerLine + 1 := by
      simp only [dotsPerLine] at hnew ⊢; omega
    rw [drawn_of_search, hdot, hnext]
    · rw [hdot]
      simp only [vblankDot, dotsPerLine, screenHeight] at hline hnew ⊢; omega
    · rw [hdot, hnew]; decide
  · have hsame : (p.dot + 1) / dotsPerLine = p.dot / dotsPerLine := by
      simp only [dotsPerLine] at hnew ⊢; omega
    rw [drawn_of_blank _ _ hmode', hdot, hsame]
    · rw [hdot, hsame]; exact hline
    · rw [hdot]
      simp only [dotsPerLine, searchDots] at hlater hnew ⊢; omega

theorem putStep_of_vblank {p : Ppu} (h : p.Drawing) (hplace : vblankDot < p.dot) : PutStep p := by
  have hnot : ¬ p.dot / dotsPerLine < screenHeight := by
    simp only [vblankDot, dotsPerLine, screenHeight] at hplace ⊢; omega
  have hframes : p.drawDot.frames = p.frames := by
    simp only [drawDot, hnot, if_false, beginLine]
    split
    case isTrue hfirst =>
      rw [if_neg]
      simp only [vblankDot, dotsPerLine, screenHeight] at hplace hfirst ⊢; omega
    case isFalse => rfl
  refine .wait (nextPut?_of_waiting (by simp [inTransfer, hnot]))
    ((step_frames h.on).trans hframes) ?_
  rw [drawn_of_vblank hplace]
  by_cases hlast : p.dot + 1 = cyclesPerFrame
  · have hdot : p.step.1.dot = 0 := by rw [step_dot h.on, if_pos hlast]
    rw [drawn_of_search] <;> rw [hdot] <;> decide
  · exact drawn_of_vblank (by rw [step_dot h.on, if_neg hlast]; omega)

/-- Every dot but the one that enters the vertical blank. -/
theorem putStep {p : Ppu} (h : p.Drawing) (hplace : p.dot ≠ vblankDot) : PutStep p := by
  rcases Nat.lt_or_gt_of_ne hplace with hvisible | hblank
  · have hline : p.dot / dotsPerLine < screenHeight := by
      simp only [vblankDot, dotsPerLine, screenHeight] at hvisible ⊢; omega
    have hdot : p.step.1.dot = p.dot + 1 := by
      rw [step_dot h.on, if_neg]
      simp only [vblankDot, screenHeight, dotsPerLine, cyclesPerFrame, linesPerFrame] at *; omega
    obtain ⟨entered, hprogress⟩ := h.schedule.visible hline
    cases hprogress with
    | search hn hmode hcount =>
      rcases Nat.lt_or_eq_of_le hn with hlt | hlast
      · exact putStep_of_search h hline hlt hmode hdot
      · exact putStep_of_begin h hline hlast hdot
    | transfer cycles hpos hn htransfer hcount =>
      exact putStep_of_transfer h hline hn hpos htransfer hdot
    | blank cycles hn hended hcount =>
      have hfewest := hended.fewest
      exact putStep_of_blank h hline (by omega) hended.mode hdot
  · exact putStep_of_vblank h hblank

theorem step_of_nextPut {p : Ppu} (h : p.Drawing) {put : Put} (hput : p.nextPut? = some put) :
    put = p.columnPut ∧ p.step.1.frames = put.apply p.frames := by
  have hnext : p.inTransfer && p.unheld := by
    by_contra hnone
    simp [nextPut?, hnone] at hput
  have hcolumn : put = p.columnPut := by
    rw [nextPut?, if_pos hnext] at hput
    exact (Option.some.inj hput).symm
  have hin := (Bool.and_eq_true_iff.mp hnext).1
  simp only [inTransfer, Bool.and_eq_true, decide_eq_true_eq] at hin
  have hplace : p.dot ≠ vblankDot := by
    have hline := hin.1.1.1.2
    simp only [vblankDot, screenHeight, dotsPerLine] at hline ⊢; omega
  refine ⟨hcolumn, ?_⟩
  cases putStep h hplace with
  | wait hnone => simp [hput] at hnone
  | put _ hframes => rw [hcolumn, hframes]

end Ppu
end Handheld
