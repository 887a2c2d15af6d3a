import Handheld.Proofs.Ppu.Actions

/-!
The length of a pixel transfer. Four things hold a transfer up: the first fetch, the columns
scrolled off, the window and the sprites. What they can still cost is bounded from below and from
above, each cycle uses up one of either bound, and so a transfer takes 168 to 291 cycles whatever
is written while it lasts.
-/

namespace Handheld

namespace Fetcher

def remaining (f : Fetcher) : Nat := if f.busy then length - f.elapsed else 0

theorem remaining_of_idle {f : Fetcher} (h : f.busy = false) : f.remaining = 0 := by
  simp [remaining, h]

theorem tick_remaining {f : Fetcher} (vram : Vram) (oam : Oam) (hbusy : f.busy)
    (hlt : f.elapsed < length) :
    (f.tick vram oam).1.remaining + 1 = f.remaining ∧
      ((f.tick vram oam).1.busy → (f.tick vram oam).1.elapsed < length) := by
  obtain ⟨source, elapsed, first, second⟩ := f
  cases source with
  | none => simp [busy] at hbusy
  | some source =>
    simp only [length] at hlt
    match elapsed, hlt with
    | 0, _ | 1, _ | 2, _ | 3, _ | 4, _ | 5, _ => simp [tick, remaining, busy, length]

theorem start_tick (source : FetchSource) (vram : Vram) (oam : Oam) :
    ((start source).tick vram oam).1.remaining = 5 ∧
      ((start source).tick vram oam).1.elapsed < length := by
  simp [start, tick, remaining, busy, length]

end Fetcher

theorem LineSprites.scan_length_le (oam : Oam) (ly height : UInt8) (room : Nat)
    (entries : List Nat) : (scan oam ly height room entries).length ≤ room := by
  fun_induction scan oam ly height room entries with
  | case1 => simp
  | case2 => simp
  | case3 room i rest sprite h ih => simp only [List.length_cons]; omega
  | case4 room i rest sprite h ih => exact ih

theorem LineSprites.search_length_le (oam : Oam) (ly height : UInt8) :
    (search oam ly height).slots.length ≤ limit := scan_length_le ..

namespace Ppu
open Progress

namespace Progress

/-- The fewest cycles a transfer still takes: the fetch in flight, the stall, and a column each. -/
def fewestLeft (s : Progress) : Nat :=
  s.fetcher.remaining + s.transfer.stall + (screenWidth - s.transfer.x)

/-- The most cycles a transfer still takes: the window may yet come in, at the price of a fetch, and
every sprite that waits may cost a fetch and a stall of five. -/
def mostLeft (s : Progress) : Nat :=
  s.fewestLeft + (if s.transfer.window then 0 else 6) + 11 * s.transfer.waiting.length

structure Transferring (s : Progress) (n : Nat) : Prop where
  mode : s.mode = .pixelTransfer
  cycles : s.transfer.cycles = n
  column : s.transfer.x < screenWidth
  fetching : s.fetcher.busy → s.fetcher.elapsed < Fetcher.length
  fewest : 168 ≤ n + s.fewestLeft
  most : n + s.mostLeft ≤ 291

structure Transferred (s : Progress) (n : Nat) : Prop where
  mode : s.mode = .hblank
  cycles : s.transfer.cycles = n
  last : s.lastTransferCycles = n
  fewest : 168 ≤ n
  most : n ≤ 291

theorem Transferring.lt {s : Progress} {n : Nat} (h : s.Transferring n) : n < 291 := by
  have hmost := h.most
  have hcolumn := h.column
  simp only [mostLeft, fewestLeft, screenWidth] at *; omega

theorem Transferring.next {s t : Progress} {n : Nat} (h : s.Transferring n)
    (hmode : t.mode = s.mode) (hcycles : t.transfer.cycles = s.transfer.cycles + 1)
    (hcolumn : t.transfer.x < screenWidth)
    (hfetching : t.fetcher.busy → t.fetcher.elapsed < Fetcher.length)
    (hfewest : s.fewestLeft ≤ t.fewestLeft + 1) (hmost : t.mostLeft + 1 ≤ s.mostLeft) :
    t.Transferring (n + 1) where
  mode := hmode.trans h.mode
  cycles := by rw [hcycles, h.cycles]
  column := hcolumn
  fetching := hfetching
  fewest := by have := h.fewest; omega
  most := by have := h.most; omega

theorem Transferring.count {s t : Progress} {n : Nat} (h : s.Transferring n)
    (hmode : t.mode = s.mode) (hcycles : t.transfer.cycles = s.transfer.cycles + 1)
    (hwindow : t.transfer.window = s.transfer.window)
    (hwaiting : t.transfer.waiting = s.transfer.waiting) (hcolumn : t.transfer.x < screenWidth)
    (hfetching : t.fetcher.busy → t.fetcher.elapsed < Fetcher.length)
    (hfewest : t.fewestLeft + 1 = s.fewestLeft) : t.Transferring (n + 1) := by
  have hmost : t.mostLeft + 1 = s.mostLeft := by
    simp only [mostLeft, hwindow, hwaiting]; omega
  exact h.next hmode hcycles hcolumn hfetching (by omega) (by omega)

end Progress

theorem beginTransfer_fewestLeft (p : Ppu) :
    p.beginTransfer.progress.fewestLeft = 167 + p.registers.scx.toNat % 8 := by
  have hremaining : p.beginTransfer.fetcher.remaining = 5 := (Fetcher.start_tick _ p.vram p.oam).1
  change p.beginTransfer.fetcher.remaining +
    (pipelineFill + p.registers.scx.toNat % 8) + (screenWidth - 0) = _
  rw [hremaining]
  simp only [pipelineFill, screenWidth]; omega

theorem beginTransfer_transferring (p : Ppu) : p.beginTransfer.progress.Transferring 1 := by
  have hslots := LineSprites.search_length_le p.oam p.ly p.registers.spriteHeight
  have hscroll : p.registers.scx.toNat % 8 < 8 := Nat.mod_lt _ (by decide)
  have hfewest := p.beginTransfer_fewestLeft
  have hmost : p.beginTransfer.progress.mostLeft = p.beginTransfer.progress.fewestLeft + 6 +
      11 * (LineSprites.search p.oam p.ly p.registers.spriteHeight).slots.length := rfl
  simp only [LineSprites.limit] at hslots
  exact {
    mode := rfl
    cycles := rfl
    column := (by decide : 0 < screenWidth)
    fetching := fun _ => (Fetcher.start_tick _ p.vram p.oam).2
    fewest := by omega
    most := by omega }

theorem spriteStall_le (p : Ppu) (s : Sprite) : p.spriteStall s ≤ 5 := Nat.sub_le ..

theorem waitingSprite?_mem {p : Ppu} {x : Nat} {slot : SpriteSlot}
    (h : p.waitingSprite? x = some slot) : slot ∈ p.transfer.waiting := by
  unfold waitingSprite? at h
  split at h
  · exact List.mem_of_find?_eq_some h
  · cases h

structure Ready (p : Ppu) : Prop where
  idle : p.fetcher.busy = false
  stall : p.transfer.stall = 0

theorem Ready.fewestLeft {p : Ppu} (h : p.Ready) :
    p.progress.fewestLeft = screenWidth - p.transfer.x := by
  have hstall : p.progress.transfer.stall = 0 := h.stall
  have hidle : p.progress.fetcher.remaining = 0 := Fetcher.remaining_of_idle h.idle
  rw [Progress.fewestLeft, hstall, hidle, Nat.zero_add]
  rfl

def countCycle (p : Ppu) : Ppu :=
  { p with transfer := { p.transfer with cycles := p.transfer.cycles + 1 } }

theorem tickFetch_fewestLeft {p : Ppu} (hbusy : p.fetcher.busy)
    (hlt : p.fetcher.elapsed < Fetcher.length) :
    (progress { p.countCycle with fetcher := (p.fetcher.tick p.vram p.oam).1 }).fewestLeft + 1 =
      p.progress.fewestLeft := by
  obtain ⟨hremaining, -⟩ := Fetcher.tick_remaining p.vram p.oam hbusy hlt
  simp only [Progress.fewestLeft, progress, countCycle]; omega

theorem tickFetch_transferring {p : Ppu} {n : Nat} (h : p.progress.Transferring n)
    (hbusy : p.fetcher.busy) :
    Progress.Transferring
      (progress { p.countCycle with fetcher := (p.fetcher.tick p.vram p.oam).1 }) (n + 1) := by
  have hlt := h.fetching hbusy
  exact h.count rfl rfl rfl rfl h.column (Fetcher.tick_remaining p.vram p.oam hbusy hlt).2
    (tickFetch_fewestLeft hbusy hlt)

theorem countStall_fewestLeft {p : Ppu} (hstall : 0 < p.transfer.stall) :
    (progress { p.countCycle with
      transfer := { p.countCycle.transfer with stall := p.transfer.stall - 1 } }).fewestLeft + 1 =
      p.progress.fewestLeft := by
  simp only [Progress.fewestLeft, progress, countCycle]; omega

theorem countStall_transferring {p : Ppu} {n : Nat} (h : p.progress.Transferring n)
    (hstall : 0 < p.transfer.stall) :
    Progress.Transferring (progress { p.countCycle with
      transfer := { p.countCycle.transfer with stall := p.transfer.stall - 1 } }) (n + 1) :=
  h.count rfl rfl rfl rfl h.column h.fetching (countStall_fewestLeft hstall)

theorem Ready.enterWindow_fewestLeft {p : Ppu} (h : p.Ready) :
    p.countCycle.enterWindow.progress.fewestLeft = 5 + p.progress.fewestLeft := by
  have hremaining : p.countCycle.enterWindow.fetcher.remaining = 5 :=
    (Fetcher.start_tick _ p.vram p.oam).1
  change p.countCycle.enterWindow.fetcher.remaining + p.transfer.stall +
    (screenWidth - p.transfer.x) = _
  rw [hremaining, h.stall, h.fewestLeft]

theorem enterWindow_transferring {p : Ppu} {n : Nat} (h : p.progress.Transferring n)
    (hready : p.Ready) (hwindow : p.transfer.window = false) :
    p.countCycle.enterWindow.progress.Transferring (n + 1) := by
  have hfewest := hready.enterWindow_fewestLeft
  refine h.next rfl rfl h.column (fun _ => (Fetcher.start_tick _ p.vram p.oam).2) (by omega) ?_
  have hmost : p.countCycle.enterWindow.progress.mostLeft =
      p.countCycle.enterWindow.progress.fewestLeft + 0 + 11 * p.transfer.waiting.length := rfl
  have hbefore : p.progress.mostLeft =
      p.progress.fewestLeft + 6 + 11 * p.transfer.waiting.length := by
    simp [Progress.mostLeft, progress, hwindow]
  omega

theorem Ready.fetchSprite_fewestLeft {p : Ppu} (h : p.Ready) (slot : SpriteSlot) :
    (p.countCycle.fetchSprite slot).progress.fewestLeft =
      5 + p.spriteStall slot.sprite + p.progress.fewestLeft := by
  have hremaining : (p.countCycle.fetchSprite slot).fetcher.remaining = 5 :=
    (Fetcher.start_tick _ p.vram p.oam).1
  change (p.countCycle.fetchSprite slot).fetcher.remaining + p.spriteStall slot.sprite +
    (screenWidth - p.transfer.x) = _
  rw [hremaining, h.fewestLeft]

theorem fetchSprite_transferring {p : Ppu} {n : Nat} (h : p.progress.Transferring n)
    (hready : p.Ready) {slot : SpriteSlot} (hslot : slot ∈ p.transfer.waiting) :
    (p.countCycle.fetchSprite slot).progress.Transferring (n + 1) := by
  have hfewest := hready.fetchSprite_fewestLeft slot
  have hstall := p.spriteStall_le slot.sprite
  refine h.next rfl rfl h.column (fun _ => (Fetcher.start_tick _ p.vram p.oam).2) (by omega) ?_
  have hmost : (p.countCycle.fetchSprite slot).progress.mostLeft =
      (p.countCycle.fetchSprite slot).progress.fewestLeft +
        (if p.transfer.window then 0 else 6) + 11 * (p.transfer.waiting.erase slot).length := rfl
  have hbefore : p.progress.mostLeft = p.progress.fewestLeft +
      (if p.transfer.window then 0 else 6) + 11 * p.transfer.waiting.length := rfl
  have herase := List.length_erase_of_mem hslot
  have hpos := List.length_pos_of_mem hslot
  omega

theorem shiftOut_of_more {p : Ppu} (hmore : p.transfer.x + 1 ≠ screenWidth) :
    (p.countCycle.shiftOut p.transfer.x).progress =
      { p.countCycle.progress with
        transfer := { p.countCycle.transfer with x := p.transfer.x + 1 } } := by
  rw [shiftOut, if_neg hmore]
  rfl

theorem shiftOut_fewestLeft {p : Ppu} (hcolumn : p.transfer.x < screenWidth)
    (hmore : p.transfer.x + 1 ≠ screenWidth) :
    (p.countCycle.shiftOut p.transfer.x).progress.fewestLeft + 1 = p.progress.fewestLeft := by
  rw [shiftOut_of_more hmore]
  simp only [Progress.fewestLeft, progress, countCycle]; omega

theorem shiftOut_transferring {p : Ppu} {n : Nat} (h : p.progress.Transferring n)
    (hmore : p.transfer.x + 1 ≠ screenWidth) :
    (p.countCycle.shiftOut p.transfer.x).progress.Transferring (n + 1) := by
  have hcolumn : p.transfer.x < screenWidth := h.column
  have hfewest := shiftOut_fewestLeft hcolumn hmore
  rw [shiftOut_of_more hmore] at hfewest ⊢
  exact h.count rfl rfl rfl rfl (Nat.lt_of_le_of_ne hcolumn hmore) h.fetching hfewest

theorem shiftOut_transferred {p : Ppu} {n : Nat} (h : p.progress.Transferring n)
    (hready : p.Ready) (hlast : p.transfer.x + 1 = screenWidth) :
    (p.countCycle.shiftOut p.transfer.x).progress.Transferred (n + 1) ∧
      (p.countCycle.shiftOut p.transfer.x).hblankCount = p.hblankCount + 1 := by
  have hcycles : p.transfer.cycles = n := h.cycles
  have hfewest := h.fewest
  rw [hready.fewestLeft] at hfewest
  have hmost := h.lt
  rw [shiftOut, if_pos hlast]
  refine ⟨⟨rfl, ?_, ?_, by omega, by omega⟩, rfl⟩
  · exact congrArg (· + 1) hcycles
  · exact congrArg (· + 1) hcycles

theorem transferCycle_eq (p : Ppu) : p.transferCycle =
    if p.fetcher.busy then { p.countCycle with fetcher := (p.fetcher.tick p.vram p.oam).1 }
    else if 0 < p.transfer.stall then
      { p.countCycle with
        transfer := { p.countCycle.transfer with stall := p.transfer.stall - 1 } }
    else p.countCycle.advance p.transfer.x := rfl

/-- A cycle of a transfer leads on or ends it, and an ended transfer enters a blank. -/
theorem transferCycle_progress {p : Ppu} {n : Nat} (h : p.progress.Transferring n) :
    (p.transferCycle.progress.Transferring (n + 1) ∧
        p.transferCycle.hblankCount = p.hblankCount) ∨
      (p.transferCycle.progress.Transferred (n + 1) ∧
        p.transferCycle.hblankCount = p.hblankCount + 1) := by
  rw [transferCycle_eq]
  split
  case isTrue hbusy => exact .inl ⟨tickFetch_transferring h hbusy, rfl⟩
  case isFalse hidle =>
    split
    case isTrue hstall => exact .inl ⟨countStall_transferring h hstall, rfl⟩
    case isFalse hstall =>
      have hready : p.Ready := ⟨by simpa using hidle, by omega⟩
      unfold advance
      split
      case isTrue hwindow =>
        rw [Bool.and_eq_true, Bool.not_eq_true'] at hwindow
        exact .inl ⟨enterWindow_transferring h hready hwindow.1, rfl⟩
      case isFalse =>
        split
        case h_1 slot hslot =>
          exact .inl ⟨fetchSprite_transferring h hready (waitingSprite?_mem hslot), rfl⟩
        case h_2 =>
          by_cases hlast : p.transfer.x + 1 = screenWidth
          · exact .inr (shiftOut_transferred h hready hlast)
          · refine .inl ⟨shiftOut_transferring h hlast, ?_⟩
            rw [shiftOut, if_neg hlast]
            rfl

end Ppu
end Handheld
