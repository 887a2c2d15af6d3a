import Mathlib
import Handheld.Proofs.Ppu.EveryFrame

/-!
The length of a quiet transfer. While the control, scroll and window registers are left alone, what
the window and the sprites will still cost is known, each cycle uses up one of what is left, and the
last column is not put before all of it is paid: the length is known when the transfer begins.
-/

namespace Handheld

namespace LineSprites

theorem selectable_of_mem_scan {oam : Oam} {ly height : UInt8} {room : Nat} {entries : List Nat}
    {slot : SpriteSlot} (h : slot ∈ scan oam ly height room entries) :
    slot.sprite.selectableX := by
  fun_induction scan oam ly height room entries with
  | case1 => cases h
  | case2 => cases h
  | case3 room i rest sprite hselected ih =>
    rcases List.mem_cons.mp h with rfl | hrest
    · exact (Bool.and_eq_true_iff.mp hselected).2
    · exact ih hrest
  | case4 room i rest sprite hpassed ih => exact ih h

end LineSprites

theorem Sprite.firstColumn_lt {s : Sprite} (h : s.selectableX) : s.firstColumn < screenWidth := by
  have hx : s.x < 168 := by
    have := (Bool.and_eq_true_iff.mp h).2
    simpa using this
  have hlt : s.x.toNat < 168 := UInt8.lt_iff_toNat_lt.mp hx
  simp only [firstColumn, screenWidth]; omega

namespace Ppu
open Progress

def spriteCost (scx : UInt8) (slot : SpriteSlot) : Nat :=
  11 - min 5 ((slot.sprite.x.toNat + scx.toNat) % 8)

/-- Cycles of the transfer that begins on the next dot, if no register that delays it is written
before its end. -/
def transferLength (p : Ppu) : Nat :=
  168 + p.registers.scx.toNat % 8 +
    (if p.windowEnabled && p.registers.wy ≤ p.ly && p.registers.wx ≤ 166 then 6 else 0) +
    if p.registers.spritesShown then
      ((LineSprites.search p.oam p.ly p.registers.spriteHeight).slots.map
        (spriteCost p.registers.scx)).sum
    else 0

def Action.keepsDelays : Action → Bool
  | .writeRegister address _ =>
    address != 0xFF40 && address != 0xFF43 && address != 0xFF4A && address != 0xFF4B
  | _ => true

/-- What delays the transfers of a line: its scroll, and whether the window and the sprites come
in. -/
structure Delays where
  scx : UInt8
  window : Bool
  sprites : Bool

def delays (p : Ppu) : Delays where
  scx := p.registers.scx
  window := p.windowEnabled && p.registers.wy ≤ p.ly && p.registers.wx ≤ windowLimit
  sprites := p.registers.spritesShown

namespace Delays

def ofSprites (d : Delays) (slots : List SpriteSlot) : Nat :=
  if d.sprites then (slots.map (spriteCost d.scx)).sum else 0

theorem ofSprites_erase {d : Delays} (h : d.sprites) {slots : List SpriteSlot} {slot : SpriteSlot}
    (hslot : slot ∈ slots) :
    d.ofSprites slots = spriteCost d.scx slot + d.ofSprites (slots.erase slot) := by
  simp only [ofSprites, if_pos h]
  exact (List.sum_map_erase (spriteCost d.scx) hslot).symm

end Delays

namespace Progress

/-- The cycles a transfer still takes: the fewest it can, the window if that is to come in, and each
sprite that waits to. -/
def left (s : Progress) (d : Delays) : Nat :=
  s.fewestLeft + (if d.window && !s.transfer.window then 6 else 0) +
    d.ofSprites s.transfer.waiting

theorem left_of_count {s t : Progress} {d : Delays} (hfewest : t.fewestLeft + 1 = s.fewestLeft)
    (hwindow : t.transfer.window = s.transfer.window)
    (hwaiting : t.transfer.waiting = s.transfer.waiting) : t.left d + 1 = s.left d := by
  simp only [left, hwindow, hwaiting]; omega

/-- A transfer that is to come to `length` cycles has taken `n` of them. -/
structure OnCourse (s : Progress) (d : Delays) (length n : Nat) : Prop where
  transferring : s.Transferring n
  ahead : d.sprites → ∀ slot ∈ s.transfer.waiting,
    s.transfer.x ≤ slot.sprite.firstColumn ∧ slot.sprite.firstColumn < screenWidth
  left : n + s.left d = length

theorem OnCourse.next {s t : Progress} {d : Delays} {length n : Nat} (h : s.OnCourse d length n)
    (htransferring : t.Transferring (n + 1)) (hcolumn : t.transfer.x = s.transfer.x)
    (hwaiting : ∀ slot ∈ t.transfer.waiting, slot ∈ s.transfer.waiting)
    (hleft : t.left d + 1 = s.left d) : t.OnCourse d length (n + 1) where
  transferring := htransferring
  ahead hsprites slot hslot := by
    rw [hcolumn]
    exact h.ahead hsprites slot (hwaiting slot hslot)
  left := by have := h.left; omega

end Progress

theorem delays_of_frame {p q : Ppu} (hcontents : q.contents = p.contents) (hly : q.ly = p.ly) :
    q.delays = p.delays := by
  have hmodel : q.model = p.model := congrArg Contents.model hcontents
  have hregisters : q.registers = p.registers := congrArg Contents.registers hcontents
  simp only [delays, windowEnabled, hmodel, hregisters, hly]

theorem perform_write_delays {p : Ppu} {a : Action} (h : a.keepsDelays) (ha : a ≠ .step) :
    (p.perform a).delays = p.delays := by
  cases a with
  | step => exact absurd rfl ha
  | writeVram address v => rfl
  | writeOam i v => rfl
  | writeRegister address v =>
    simp only [Action.keepsDelays, Bool.and_eq_true, bne_iff_ne] at h
    obtain ⟨⟨⟨hcontrol, hscroll⟩, htop⟩, hleft⟩ := h
    obtain ⟨_, _, _, _, hwrite, hsame⟩ := p.writeRegister_changes v hcontrol
    rw [perform, hwrite]
    simp only [delays, windowEnabled, LcdRegisters.windowBit, LcdRegisters.backgroundBit,
      LcdRegisters.spritesShown, hsame.lcdc hcontrol, hsame.scx hscroll, hsame.wy htop,
      hsame.wx hleft]

theorem beginTransfer_onCourse (p : Ppu) :
    p.beginTransfer.progress.OnCourse p.delays p.transferLength 1 where
  transferring := p.beginTransfer_transferring
  ahead _ slot hslot :=
    ⟨Nat.zero_le _, Sprite.firstColumn_lt (LineSprites.selectable_of_mem_scan hslot)⟩
  left := by
    have hfewest := p.beginTransfer_fewestLeft
    have hleft : p.beginTransfer.progress.left p.delays =
        p.beginTransfer.progress.fewestLeft + (if p.delays.window && true then 6 else 0) +
          p.delays.ofSprites (LineSprites.search p.oam p.ly p.registers.spriteHeight).slots := rfl
    have hlength : p.transferLength =
        168 + p.registers.scx.toNat % 8 + (if p.delays.window then 6 else 0) +
          p.delays.ofSprites (LineSprites.search p.oam p.ly p.registers.spriteHeight).slots := rfl
    rw [Bool.and_true] at hleft
    omega

theorem windowCovers_eq (p : Ppu) (x : Nat) :
    p.windowCovers x = (p.delays.window && decide (p.registers.wx.toNat ≤ x + 7)) := rfl

theorem window_of_lastColumn {p : Ppu} (h : p.windowCovers p.transfer.x = false)
    (hlast : p.transfer.x + 1 = screenWidth) : p.delays.window = false := by
  by_contra hwindow
  have hlimit : p.registers.wx ≤ windowLimit := by
    simp only [delays, Bool.and_eq_true, decide_eq_true_eq, Bool.not_eq_false] at hwindow
    exact hwindow.2
  have hwx : p.registers.wx.toNat ≤ 166 := UInt8.le_iff_toNat_le.mp hlimit
  simp only [windowCovers_eq, Bool.and_eq_false_iff, decide_eq_false_iff_not] at h
  simp only [screenWidth] at hlast
  rcases h with hout | hright
  · exact hwindow hout
  · omega

theorem waitingSprite?_none {p : Ppu} {x : Nat} (h : p.waitingSprite? x = none)
    (hsprites : p.delays.sprites) {slot : SpriteSlot} (hslot : slot ∈ p.transfer.waiting) :
    slot.sprite.firstColumn ≠ x := by
  have hshown : p.registers.spritesShown := hsprites
  rw [waitingSprite?, if_pos hshown] at h
  simpa using List.find?_eq_none.mp h slot hslot

theorem waitingSprite?_shown {p : Ppu} {x : Nat} {slot : SpriteSlot}
    (h : p.waitingSprite? x = some slot) : p.delays.sprites := by
  unfold waitingSprite? at h
  split at h
  case isTrue hshown => exact hshown
  case isFalse => cases h

theorem spriteCost_eq (p : Ppu) (slot : SpriteSlot) :
    spriteCost p.delays.scx slot = 6 + p.spriteStall slot.sprite := by
  have hscx : p.delays.scx = p.registers.scx := rfl
  rw [spriteCost, spriteStall, hscx]
  omega

section Cycle

variable {p : Ppu} {length n : Nat}

theorem tickFetch_onCourse (h : p.progress.OnCourse p.delays length n) (hbusy : p.fetcher.busy) :
    Progress.OnCourse (progress { p.countCycle with fetcher := (p.fetcher.tick p.vram p.oam).1 })
      p.delays length (n + 1) :=
  h.next (tickFetch_transferring h.transferring hbusy) rfl (fun _ => id)
    (left_of_count (tickFetch_fewestLeft hbusy (h.transferring.fetching hbusy)) rfl rfl)

theorem countStall_onCourse (h : p.progress.OnCourse p.delays length n)
    (hstall : 0 < p.transfer.stall) :
    Progress.OnCourse (progress { p.countCycle with
      transfer := { p.countCycle.transfer with stall := p.transfer.stall - 1 } })
      p.delays length (n + 1) :=
  h.next (countStall_transferring h.transferring hstall) rfl (fun _ => id)
    (left_of_count (countStall_fewestLeft hstall) rfl rfl)

theorem enterWindow_onCourse (h : p.progress.OnCourse p.delays length n) (hready : p.Ready)
    (hwindow : p.transfer.window = false) (hcovers : p.windowCovers p.transfer.x) :
    p.countCycle.enterWindow.progress.OnCourse p.delays length (n + 1) := by
  have hfewest := hready.enterWindow_fewestLeft
  rw [windowCovers_eq, Bool.and_eq_true] at hcovers
  have hbefore : p.progress.left p.delays =
      p.progress.fewestLeft + 6 + p.delays.ofSprites p.transfer.waiting := by
    simp [Progress.left, progress, hwindow, hcovers.1]
  have hafter : p.countCycle.enterWindow.progress.left p.delays =
      p.countCycle.enterWindow.progress.fewestLeft + 0 +
        p.delays.ofSprites p.transfer.waiting := by
    simp [Progress.left, progress, countCycle, enterWindow, startFetch]
  exact h.next (enterWindow_transferring h.transferring hready hwindow) rfl (fun _ => id) (by omega)

theorem fetchSprite_onCourse (h : p.progress.OnCourse p.delays length n) (hready : p.Ready)
    {slot : SpriteSlot} (hslot : p.waitingSprite? p.transfer.x = some slot) :
    (p.countCycle.fetchSprite slot).progress.OnCourse p.delays length (n + 1) := by
  have hmem := waitingSprite?_mem hslot
  have hfewest := hready.fetchSprite_fewestLeft slot
  have hcost := p.spriteCost_eq slot
  have herase := Delays.ofSprites_erase (waitingSprite?_shown hslot) hmem
  have hbefore : p.progress.left p.delays = p.progress.fewestLeft +
      (if p.delays.window && !p.transfer.window then 6 else 0) +
        p.delays.ofSprites p.transfer.waiting := rfl
  have hafter : (p.countCycle.fetchSprite slot).progress.left p.delays =
      (p.countCycle.fetchSprite slot).progress.fewestLeft +
        (if p.delays.window && !p.transfer.window then 6 else 0) +
          p.delays.ofSprites (p.transfer.waiting.erase slot) := rfl
  exact h.next (fetchSprite_transferring h.transferring hready hmem) rfl
    (fun _ => List.mem_of_mem_erase) (by omega)

theorem shiftOut_onCourse (h : p.progress.OnCourse p.delays length n)
    (hnone : p.waitingSprite? p.transfer.x = none) (hmore : p.transfer.x + 1 ≠ screenWidth) :
    (p.countCycle.shiftOut p.transfer.x).progress.OnCourse p.delays length (n + 1) := by
  have htransferring := shiftOut_transferring h.transferring hmore
  have hfewest := shiftOut_fewestLeft h.transferring.column hmore
  have hleft := h.left
  rw [shiftOut_of_more hmore] at htransferring hfewest ⊢
  refine ⟨htransferring, fun hsprites slot hslot => ?_, ?_⟩
  · have hother := waitingSprite?_none hnone hsprites hslot
    obtain ⟨hahead, hinside⟩ := h.ahead hsprites slot hslot
    exact ⟨Nat.lt_of_le_of_ne hahead (Ne.symm hother), hinside⟩
  · have hcount := left_of_count (d := p.delays) hfewest rfl rfl
    omega

theorem length_of_lastColumn (h : p.progress.OnCourse p.delays length n) (hready : p.Ready)
    (hwindow : (!p.transfer.window && p.windowCovers p.transfer.x) = false)
    (hnone : p.waitingSprite? p.transfer.x = none) (hlast : p.transfer.x + 1 = screenWidth) :
    n + 1 = length := by
  have hin : (p.delays.window && !p.transfer.window) = false := by
    rcases Bool.and_eq_false_iff.mp hwindow with hentered | hcovers
    · rw [hentered, Bool.and_false]
    · rw [window_of_lastColumn hcovers hlast, Bool.false_and]
  have hsprites : p.delays.ofSprites p.transfer.waiting = 0 := by
    unfold Delays.ofSprites
    split
    case isTrue hshown =>
      have hnil : p.transfer.waiting = [] := by
        refine List.eq_nil_iff_forall_not_mem.mpr fun slot hslot => ?_
        have hother := waitingSprite?_none hnone hshown hslot
        have hahead : p.transfer.x ≤ slot.sprite.firstColumn ∧ _ := h.ahead hshown slot hslot
        omega
      rw [hnil]
      rfl
    case isFalse => rfl
  have hleft : n + (p.progress.fewestLeft +
      (if p.delays.window && !p.transfer.window then 6 else 0) +
        p.delays.ofSprites p.transfer.waiting) = length := h.left
  rw [hready.fewestLeft, hin, hsprites, if_neg Bool.false_ne_true] at hleft
  omega

theorem transferCycle_onCourse (h : p.progress.OnCourse p.delays length n) :
    p.transferCycle.progress.OnCourse p.delays length (n + 1) ∨
      (p.transferCycle.progress.Transferred (n + 1) ∧ n + 1 = length) := by
  rw [transferCycle_eq]
  split
  case isTrue hbusy => exact .inl (tickFetch_onCourse h hbusy)
  case isFalse hidle =>
    split
    case isTrue hstall => exact .inl (countStall_onCourse h hstall)
    case isFalse hstall =>
      have hready : p.Ready := ⟨by simpa using hidle, by omega⟩
      unfold advance
      split
      case isTrue hwindow =>
        rw [Bool.and_eq_true, Bool.not_eq_true'] at hwindow
        exact .inl (enterWindow_onCourse h hready hwindow.1 hwindow.2)
      case isFalse hwindow =>
        split
        case h_1 slot hslot => exact .inl (fetchSprite_onCourse h hready hslot)
        case h_2 hnone =>
          by_cases hlast : p.transfer.x + 1 = screenWidth
          · exact .inr ⟨(shiftOut_transferred h.transferring hready hlast).1,
              length_of_lastColumn h hready (Bool.eq_false_iff.mpr hwindow) hnone hlast⟩
          · exact .inl (shiftOut_onCourse h hnone hlast)

end Cycle

/-- No register that delays a transfer is written while one is under way. -/
def Quiet (p : Ppu) (actions : List Action) : Prop :=
  ∀ pre a post, actions = pre ++ a :: post → (p.performAll pre).mode = .pixelTransfer →
    a.keepsDelays

theorem Quiet.head {p : Ppu} {a : Action} {rest : List Action} (h : p.Quiet (a :: rest))
    (hmode : p.mode = .pixelTransfer) : a.keepsDelays := h [] a rest rfl hmode

theorem Quiet.tail {p : Ppu} {a : Action} {rest : List Action} (h : p.Quiet (a :: rest)) :
    (p.perform a).Quiet rest := fun pre b post hrest => h (a :: pre) b post (by rw [hrest]; rfl)

theorem Quiet.append_steps {p : Ppu} {actions : List Action} (h : p.Quiet actions) (n : Nat) :
    p.Quiet (actions ++ List.replicate n .step) := by
  intro pre a post hsplit hmode
  have hstep : a ∈ List.replicate n .step → a.keepsDelays := fun ha => by
    rw [List.eq_of_mem_replicate ha]
    rfl
  rcases List.append_eq_append_iff.mp hsplit with ⟨more, -, hsteps⟩ | ⟨more, hactions, hrest⟩
  · exact hstep (by simp only [hsteps, List.mem_append, List.mem_cons, true_or, or_true])
  · cases more with
    | nil =>
      rw [List.nil_append] at hrest
      exact hstep (hrest ▸ List.mem_cons_self)
    | cons b more =>
      obtain ⟨rfl, -⟩ := List.cons.inj hrest
      exact h pre a more hactions hmode

/-- A transfer that is on course comes to its end when its length is taken. -/
theorem exists_transferred {p : Ppu} {line length n : Nat} {actions : List Action}
    (hon : p.lcdEnabled) (hline : line < screenHeight) (hpos : 0 < n)
    (hplace : p.dot = line * dotsPerLine + (searchDots + n))
    (h : p.progress.OnCourse p.delays length n) (hkeep : ∀ a ∈ actions, a.keepsOn)
    (hquiet : p.Quiet actions) (hdots : searchDots + n + dotsOf actions = dotsPerLine) :
    ∃ pre, pre <+: actions ∧ n + dotsOf pre = length ∧
      (p.performAll pre).progress.Transferred length := by
  have hlt := h.transferring.lt
  induction actions generalizing p n with
  | nil => simp only [searchDots, dotsPerLine, dotsOf_nil] at hdots; omega
  | cons a rest ih =>
    have hmode : p.mode = .pixelTransfer := h.transferring.mode
    have hon' := perform_lcdEnabled hon (hkeep a (by simp))
    have hkeep' : ∀ b ∈ rest, b.keepsOn := fun b hb => hkeep b (by simp [hb])
    by_cases ha : a = .step
    · subst ha
      rw [dotsOf_step] at hdots
      have hdiv : p.dot / dotsPerLine = line := by
        rw [hplace]; simp only [searchDots, dotsPerLine] at hdots ⊢; omega
      have hmod : p.dot % dotsPerLine = searchDots + n := by
        rw [hplace]; simp only [searchDots, dotsPerLine] at hdots ⊢; omega
      have hprogress : (p.perform .step).progress = p.transferCycle.progress := by
        have hdraw : (p.perform .step).progress = p.drawDot.progress := step_progress hon
        rw [hdraw, drawDot_later (by omega) (by omega), hmod,
          visibleDot_of_transferring (by omega) h.transferring]
      rcases transferCycle_onCourse h with hnext | ⟨hend, hlength⟩
      · have hdelays : (p.perform .step).delays = p.delays :=
          delays_of_frame p.step_contents
            ((congrArg Progress.ly hprogress).trans p.transferCycle_frame.2.2.2)
        have hdot : (p.perform .step).dot = line * dotsPerLine + (searchDots + (n + 1)) := by
          have hstep : (p.perform .step).dot = _ := step_dot hon
          rw [hstep, if_neg, hplace]
          · omega
          · rw [hplace]
            simp only [searchDots, dotsPerLine, screenHeight, cyclesPerFrame, linesPerFrame] at *
            omega
        rw [← hprogress, ← hdelays] at hnext
        obtain ⟨pre, hpre, hcount, hended⟩ :=
          ih hon' (by omega) hdot hnext hkeep' hquiet.tail (by omega) hnext.transferring.lt
        exact ⟨.step :: pre, List.cons_prefix_cons.mpr ⟨rfl, hpre⟩, by rw [dotsOf_step]; omega,
          hended⟩
      · rw [← hprogress, hlength] at hend
        exact ⟨[.step], List.cons_prefix_cons.mpr ⟨rfl, List.nil_prefix⟩, hlength, hend⟩
    · obtain ⟨hsame, hdot, -⟩ := perform_write_frame hon (hkeep a (by simp)) ha
      have hdelays : (p.perform a).delays = p.delays :=
        perform_write_delays (hquiet.head hmode) ha
      rw [dotsOf_write ha] at hdots
      rw [← hsame, ← hdelays] at h
      obtain ⟨pre, hpre, hcount, hended⟩ :=
        ih hon' hpos (hdot.trans hplace) h hkeep' hquiet.tail hdots hlt
      exact ⟨a :: pre, List.cons_prefix_cons.mpr ⟨rfl, hpre⟩, by rw [dotsOf_write ha]; exact hcount,
        hended⟩

theorem length_of_transferred {s : Progress} {planned length entered : Nat}
    (hplan : s.OnPlan planned (searchDots + length) entered) (h : s.Transferred length) :
    planned = length := by
  have hfewest := h.fewest
  have hover : searchDots + planned ≤ searchDots + length := by
    by_contra hunder
    have htransfer := (hplan.transfer (by omega) (by omega)).1
    rw [h.mode] at htransfer
    cases htransfer
  exact (hplan.blank hover).2.2.symm.trans h.last

theorem dot_after_lines {p : Ppu} (hon : p.lcdEnabled) (hdot : p.dot = 0)
    {before : List Action} (hkeep : ∀ a ∈ before, a.keepsOn) {k n : Nat}
    (hbefore : dotsOf before = k * dotsPerLine + n) (hn : n < dotsPerLine) :
    (p.performAll before).dot = k % linesPerFrame * dotsPerLine + n := by
  rw [performAll_dot hon (by rw [hdot]; decide) hkeep, hdot, Nat.zero_add, hbefore]
  simp only [cyclesPerFrame, linesPerFrame, dotsPerLine] at *; omega

theorem step_onCourse {p : Ppu} {line : Nat} (hon : p.lcdEnabled) (hline : line < screenHeight)
    (hdot : p.dot = line * dotsPerLine + searchDots) :
    (p.perform .step).progress.OnCourse (p.perform .step).delays p.transferLength 1 ∧
      (p.perform .step).dot = line * dotsPerLine + (searchDots + 1) := by
  have hdiv : p.dot / dotsPerLine = line := by
    rw [hdot]; simp only [searchDots, dotsPerLine]; omega
  have hmod : p.dot % dotsPerLine = searchDots := by
    rw [hdot]; simp only [searchDots, dotsPerLine]; omega
  have hdraw : p.drawDot = p.beginTransfer := by
    rw [drawDot_later (by omega) (by rw [hmod]; decide), hmod, visibleDot, if_pos rfl]
  have hprogress : (p.perform .step).progress = p.beginTransfer.progress := by
    rw [← hdraw]
    exact step_progress hon
  have hdelays : (p.perform .step).delays = p.delays :=
    delays_of_frame p.step_contents (congrArg Progress.ly hprogress)
  refine ⟨?_, ?_⟩
  · rw [hprogress, hdelays]
    exact p.beginTransfer_onCourse
  · have hstep : (p.perform .step).dot = _ := step_dot hon
    rw [hstep, if_neg, hdot, Nat.add_assoc]
    rw [hdot]
    simp only [searchDots, dotsPerLine, screenHeight, cyclesPerFrame, linesPerFrame] at *; omega

/-- From the dot on which the display is switched on, and for as long as it stays on, a visible
line whose control, scroll and window registers are left alone during its transfer keeps to the plan
that the formula gives when the transfer begins, whatever else is written and whatever the memories
hold. -/
theorem quiet_line_onPlan {p : Ppu} (hon : p.lcdEnabled) (hdot : p.dot = 0)
    {before search rest : List Action} {k : Nat}
    (hkeep : ∀ a ∈ before ++ search ++ rest, a.keepsOn)
    (hbefore : dotsOf before = k * dotsPerLine) (hvisible : k % linesPerFrame < screenHeight)
    (hsearch : dotsOf search = searchDots) (hrest : searchDots + 1 + dotsOf rest ≤ dotsPerLine)
    (hquiet : ((p.performAll (before ++ search)).perform .step).Quiet rest) :
    let start := p.performAll before
    let length := (start.performAll search).transferLength
    ∀ pre, pre <+: search ++ .step :: rest →
      (start.performAll pre).progress.OnPlan length (dotsOf pre) start.hblankCount := by
  intro start length pre hpre
  have hkeepBefore : ∀ a ∈ before, a.keepsOn := fun a ha => hkeep a (by simp [ha])
  have hkeepSearch : ∀ a ∈ search, a.keepsOn := fun a ha => hkeep a (by simp [ha])
  have hon' : start.lcdEnabled := performAll_lcdEnabled hon hkeepBefore
  have hstart : start.dot = k % linesPerFrame * dotsPerLine + 0 :=
    dot_after_lines hon hdot hkeepBefore (by rw [hbefore, Nat.add_zero]) (by decide)
  -- the line is filled up with dots, since its length is read off its end
  let fill := List.replicate (dotsPerLine - (searchDots + 1 + dotsOf rest)) Action.step
  have hkeepRest : ∀ a ∈ rest ++ fill, a.keepsOn := fun a ha =>
    (List.mem_append.mp ha).elim (fun hrest => hkeep a (by simp [hrest])) keepsOn_of_steps
  have hdots : searchDots + 1 + dotsOf (rest ++ fill) = dotsPerLine := by
    rw [dotsOf_append, dotsOf_replicate]; omega
  have hkeepLine : ∀ a ∈ search ++ .step :: (rest ++ fill), a.keepsOn := by
    intro a ha
    rcases List.mem_append.mp ha with hsearched | hlater
    · exact hkeepSearch a hsearched
    rcases List.mem_cons.mp hlater with rfl | hlater
    · rfl
    · exact hkeepRest a hlater
  obtain ⟨planned, -, -, hplan⟩ := exists_onPlan hon' hvisible
    (fun _ => hstart) (.search (n := 0) (by decide) (by simp) rfl) hkeepLine
    (by rw [dotsOf_append, dotsOf_step]; omega)
  simp only [Nat.zero_add] at hplan
  have hbegun : (start.performAll search).dot = k % linesPerFrame * dotsPerLine + searchDots := by
    rw [← performAll_append]
    refine dot_after_lines hon hdot (fun a ha => hkeep a (List.mem_append_left _ ha)) ?_ (by decide)
    rw [dotsOf_append, hbefore, hsearch]
  have hquiet' : ((start.performAll search).perform .step).Quiet (rest ++ fill) := by
    rw [performAll_append] at hquiet
    exact hquiet.append_steps _
  have honSearch := performAll_lcdEnabled hon' hkeepSearch
  obtain ⟨hcourse, hplace⟩ := step_onCourse honSearch hvisible hbegun
  obtain ⟨ended, hended, hcount, htransferred⟩ := exists_transferred
    (perform_lcdEnabled honSearch (a := .step) rfl) hvisible Nat.one_pos hplace hcourse hkeepRest
    hquiet' hdots
  have hlength : planned = length := by
    have hend := hplan (search ++ .step :: ended)
      ((List.prefix_append_right_inj _).mpr (List.cons_prefix_cons.mpr ⟨rfl, hended⟩))
    rw [dotsOf_append, dotsOf_step, hsearch, Nat.add_comm (dotsOf ended), hcount,
      performAll_append, performAll_cons] at hend
    exact length_of_transferred hend htransferred
  rw [← hlength]
  refine hplan pre (hpre.trans ?_)
  rw [← List.cons_append, ← List.append_assoc]
  exact List.prefix_append _ _

/-- Two sprites in one column of the first line, the picture scrolled by three columns, and the
window over the whole of it. -/
def windowedSearch : List Action :=
  [.writeOam 0 16, .writeOam 1 20, .writeOam 4 16, .writeOam 5 20, .writeRegister 0xFF43 3,
    .writeRegister 0xFF4B 7, .writeRegister 0xFF40 0xB3] ++ List.replicate 80 .step

/-- Its transfer, on which the sprites are moved away, and its blank. -/
def windowedRest : List Action :=
  List.replicate 10 .step ++ ([.writeOam 1 0, .writeOam 5 0, .writeVram 0x9800 1] ++
    List.replicate 365 .step)

theorem windowedLine_onPlan :
    let start := booted.performAll []
    booted.lcdEnabled ∧ booted.dot = 0 ∧
      (∀ a ∈ [] ++ windowedSearch ++ windowedRest, a.keepsOn) ∧
      dotsOf [] = 0 * dotsPerLine ∧ 0 % linesPerFrame < screenHeight ∧
      dotsOf windowedSearch = searchDots ∧
      searchDots + 1 + dotsOf windowedRest ≤ dotsPerLine ∧
      ((booted.performAll ([] ++ windowedSearch)).perform .step).Quiet windowedRest ∧
      (start.performAll windowedSearch).transferLength = 168 + 3 + 6 + (6 + 6) ∧
      ∀ pre, pre <+: windowedSearch ++ .step :: windowedRest →
        (start.performAll pre).progress.OnPlan 189 (dotsOf pre) 0 := by
  intro start
  have hon : booted.lcdEnabled := by decide
  have hkeep : ∀ a ∈ [] ++ windowedSearch ++ windowedRest, a.keepsOn := by decide +kernel
  have hsearch : dotsOf windowedSearch = searchDots := by decide +kernel
  have hrest : searchDots + 1 + dotsOf windowedRest ≤ dotsPerLine := by decide +kernel
  have hkept : ∀ a ∈ windowedRest, a.keepsDelays := by decide +kernel
  have hquiet : ((booted.performAll ([] ++ windowedSearch)).perform .step).Quiet windowedRest :=
    fun pre a post hsplit _ => hkept a (by simp [hsplit])
  have hlength : (start.performAll windowedSearch).transferLength = 168 + 3 + 6 + (6 + 6) := by
    decide +kernel
  refine ⟨hon, rfl, hkeep, rfl, by decide, hsearch, hrest, hquiet, hlength, fun pre hpre => ?_⟩
  have hplan :=
    quiet_line_onPlan (k := 0) hon rfl hkeep rfl (by decide) hsearch hrest hquiet pre hpre
  rw [hlength] at hplan
  exact hplan

end Ppu
end Handheld
