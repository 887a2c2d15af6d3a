import Handheld.Proofs.Bus.EveryBlank

/-!
The whole course of a transfer by blanks, from the write that starts it. It copies a block in each
blank, but what it copies in a blank that ends before the first block is complete comes on top.
-/

namespace Handheld.Bus
open Dma Ppu

variable {σ : Type} [ExternalMemory σ] {b : Bus σ} {total number left count : Nat}

/-- Bytes that a transfer copies before its first block, when `left` dots of a blank are left. -/
def headStart (left : Nat) : Nat := if left < blockLength then left else 0

/-- The blank of the first block of a transfer started in blank `number`, or after it. -/
def firstBlank (number left : Nat) : Nat := if left < blockLength then number + 1 else number

/-- A transfer of `total` blocks after `count` copies. It was started when blank `number` was the
last to be entered and had `left` dots to go. -/
inductive InCourse (total number left : Nat) (p : Ppu) : Option VramTransfer → Nat → Prop where
  | waiting (hleft : p.blankLeft = left) (hnumber : p.hblankCount = number) :
      InCourse total number left p (some (.hblank total none 0)) 0
  | short (n : Nat) (hshort : left < blockLength) (hleft : n + p.blankLeft = left)
      (hnumber : p.hblankCount = number) :
      InCourse total number left p (some (.hblank total (some number) n)) n
  | block (blocks before : Nat) (hpos : 0 < blocks) (hblocks : before + blocks = total)
      (hnumber : p.hblankCount = firstBlank number left + before)
      {t : Option VramTransfer} {n : Nat} (h : InBlock blocks p t n) :
      InCourse total number left p t (headStart left + blockLength * before + n)
  | finished : InCourse total number left p none (headStart left + blockLength * total)

theorem InCourse.congr {p q : Ppu} {t : Option VramTransfer} (hprogress : q.progress = p.progress)
    (hdot : q.dot = p.dot) (h : InCourse total number left p t count) :
    InCourse total number left q t count := by
  have hcount : q.hblankCount = p.hblankCount := congrArg Progress.hblankCount hprogress
  have hblank := blankLeft_congr hprogress hdot
  cases h with
  | waiting hleft hnumber => exact .waiting (hblank.trans hleft) (hcount.trans hnumber)
  | short n hshort hleft hnumber =>
    exact .short count hshort (by rw [hblank]; exact hleft) (hcount.trans hnumber)
  | block blocks before hpos hblocks hnumber h =>
    exact .block blocks before hpos hblocks (hcount.trans hnumber) (h.congr hprogress hdot)
  | finished => exact .finished

theorem InCourse.of_first {blocks before copied : Nat} {line : Option Nat} (hpos : 0 < blocks)
    (hblocks : before + blocks = total) (hdisplay : b.Displays)
    (h : b.dma.vram = some (.hblank blocks line copied)) (hmode : b.cycle.ppu.mode = .hblank)
    (hnew : copiedIn line copied b.cycle.ppu.hblankCount = 0)
    (hlong : blockLength ≤ 1 + b.cycle.ppu.blankLeft)
    (hnumber : b.cycle.ppu.hblankCount = firstBlank number left + before)
    (hcount : count = headStart left + blockLength * before)
    (hend : ∀ c ∈ b.copies, c.destination < 0x9FFF) :
    InCourse total number left b.cycle.ppu b.cycle.dma.vram (count + b.copies.length) := by
  obtain ⟨hone, hblock⟩ := inBlock_of_first hdisplay.on h hmode hnew hlong hend
  rw [hone, hcount]
  exact .block blocks before hpos hblocks hnumber hblock

theorem InCourse.of_short {copied : Nat} {line : Option Nat} (hdisplay : b.Displays)
    (h : b.dma.vram = some (.hblank total line copied)) (hmode : b.cycle.ppu.mode = .hblank)
    (hcopied : copiedIn line copied b.cycle.ppu.hblankCount = count)
    (hshort : left < blockLength) (hleft : count + 1 + b.cycle.ppu.blankLeft = left)
    (hnumber : b.cycle.ppu.hblankCount = number) (hend : ∀ c ∈ b.copies, c.destination < 0x9FFF) :
    InCourse total number left b.cycle.ppu b.cycle.dma.vram (count + b.copies.length) := by
  obtain ⟨hcopies, hstate⟩ := cycle_of_room hdisplay.on h hmode (by omega) hend
  have hvram : b.cycle.dma.vram = some (.hblank total (some number) (count + 1)) := by
    refine (congrArg VramState.vram hstate).trans ?_
    rw [hcopied, hnumber]
    exact afterByte_of_more (by omega)
  rw [hvram, hcopies]
  exact .short (count + 1) hshort hleft hnumber

theorem InCourse.of_still {blocks copied : Nat} {line : Option Nat}
    (ht : b.dma.vram = some (.hblank blocks line copied)) (hstill : b.copies = [])
    (h : InCourse total number left b.cycle.ppu (some (.hblank blocks line copied)) count) :
    InCourse total number left b.cycle.ppu b.cycle.dma.vram (count + b.copies.length) := by
  have hvram : b.cycle.dma.vram = b.dma.vram :=
    congrArg VramState.vram (cycle_vramState_of_still ht hstill)
  rw [hvram, ht, hstill]
  exact h

theorem InCourse.of_finished (ht : b.dma.vram = none) :
    InCourse total number left b.cycle.ppu b.cycle.dma.vram
      (headStart left + blockLength * total + b.copies.length) := by
  have hvram : b.cycle.dma.vram = b.dma.vram :=
    congrArg VramState.vram (cycle_vramState_of_idle ht)
  rw [hvram, ht, copies_of_idle ht]
  exact .finished

theorem InCourse.cycle_of_waiting (hpos : 0 < total) (hdisplay : b.Displays)
    (hend : ∀ c ∈ b.copies, c.destination < 0x9FFF)
    (ht : b.dma.vram = some (.hblank total none 0)) (hleft : b.ppu.blankLeft = left)
    (hnumber : b.ppu.hblankCount = number) :
    InCourse total number left b.cycle.ppu b.cycle.dma.vram (0 + b.copies.length) := by
  cases hdisplay.blankStep with
  | stay hmore hmode hcount =>
    rcases Nat.lt_or_ge left blockLength with hshort | hlong
    · exact .of_short hdisplay ht hmode rfl hshort (by omega) (hcount.trans hnumber) hend
    · refine .of_first hpos (Nat.zero_add _) hdisplay ht hmode rfl (by omega) ?_ ?_ hend
      · rw [hcount, hnumber, firstBlank, if_neg (by omega), Nat.add_zero]
      · rw [headStart, if_neg (by omega), Nat.mul_zero]
  | leave hover hmode hcount =>
    refine .of_still ht (copies_of_outside ht hmode) (.waiting ?_ (hcount.trans hnumber))
    rw [blankLeft_of_mode hmode]
    omega
  | enter hover hmode hcount hlong =>
    have hleft : left = 0 := by omega
    subst hleft
    refine .of_first hpos (Nat.zero_add _) hdisplay ht hmode rfl ?_ ?_ rfl hend
    · simp only [blockLength]; omega
    · rw [hcount, hnumber]; rfl

theorem InCourse.cycle_of_short (hpos : 0 < total) (hdisplay : b.Displays)
    (hend : ∀ c ∈ b.copies, c.destination < 0x9FFF)
    (ht : b.dma.vram = some (.hblank total (some number) count)) (hshort : left < blockLength)
    (hleft : count + b.ppu.blankLeft = left) (hnumber : b.ppu.hblankCount = number) :
    InCourse total number left b.cycle.ppu b.cycle.dma.vram (count + b.copies.length) := by
  cases hdisplay.blankStep with
  | stay hmore hmode hcount =>
    have hsame := hcount.trans hnumber
    refine .of_short hdisplay ht hmode ?_ hshort (by omega) hsame hend
    rw [hsame, copiedIn_same]
  | leave hover hmode hcount =>
    refine .of_still ht (copies_of_outside ht hmode) (.short count hshort ?_ (hcount.trans hnumber))
    rw [blankLeft_of_mode hmode]
    omega
  | enter hover hmode hcount hlong =>
    refine .of_first hpos (Nat.zero_add _) hdisplay ht hmode (copiedIn_other (by omega) _) ?_ ?_ ?_
      hend
    · simp only [blockLength]; omega
    · rw [hcount, hnumber, firstBlank, if_pos hshort, Nat.add_zero]
    · rw [headStart, if_pos hshort, Nat.mul_zero]; omega

theorem InCourse.cycle_of_block {blocks before n : Nat} (hdisplay : b.Displays)
    (hend : ∀ c ∈ b.copies, c.destination < 0x9FFF) (hpos : 0 < blocks)
    (hblocks : before + blocks = total)
    (hnumber : b.ppu.hblankCount = firstBlank number left + before)
    (h : InBlock blocks b.ppu b.dma.vram n) :
    InCourse total number left b.cycle.ppu b.cycle.dma.vram
      (headStart left + blockLength * before + n + b.copies.length) := by
  -- the number of the blank stays until the next one is entered, and a block has room in its own
  have hstill (hsame : b.cycle.ppu.hblankCount = b.ppu.hblankCount) :
      InCourse total number left b.cycle.ppu b.cycle.dma.vram
        (headStart left + blockLength * before + n + b.copies.length) := by
    obtain ⟨hlength, hnext⟩ := h.cycle hdisplay hsame hend
    rw [Nat.add_assoc, hlength]
    exact .block blocks before hpos hblocks (hsame.trans hnumber) hnext
  cases hdisplay.blankStep with
  | stay _ _ hsame | leave _ _ hsame => exact hstill hsame
  | enter hover hmode hcount hlong =>
    have hroom := h.room
    have hle := h.le
    obtain rfl : n = blockLength := by omega
    by_cases hlast : blocks = 1
    · subst hlast
      have htotal : headStart left + blockLength * before + blockLength =
          headStart left + blockLength * total := by
        rw [← hblocks, Nat.mul_add, Nat.mul_one, Nat.add_assoc]
      rw [htotal]
      exact .of_finished h.transfer
    · have ht := h.transfer.trans (afterByte_of_block hlast)
      have hmore : before + 1 + (blocks - 1) = total := by omega
      refine .of_first (by omega) hmore hdisplay ht hmode (copiedIn_other (by omega) _) ?_
        (by omega) ?_ hend
      · simp only [blockLength]; omega
      · rw [Nat.mul_add, Nat.mul_one, Nat.add_assoc]

theorem InCourse.cycle (hpos : 0 < total) (hdisplay : b.Displays)
    (hend : ∀ c ∈ b.copies, c.destination < 0x9FFF)
    (h : InCourse total number left b.ppu b.dma.vram count) :
    InCourse total number left b.cycle.ppu b.cycle.dma.vram (count + b.copies.length) := by
  generalize ht : b.dma.vram = t at h
  cases h with
  | waiting hleft hnumber => exact .cycle_of_waiting hpos hdisplay hend ht hleft hnumber
  | short n hshort hleft hnumber =>
    exact .cycle_of_short hpos hdisplay hend ht hshort hleft hnumber
  | block blocks before hpos hblocks hnumber h =>
    exact .cycle_of_block hdisplay hend hpos hblocks hnumber (ht ▸ h)
  | finished => exact .of_finished ht

theorem InCourse.performAll {events : List Event} (hpos : 0 < total) (hdisplay : b.Displays)
    (hkeep : ∀ e ∈ events, e.keepsOn) (hcontrol : ∀ e ∈ events, e.controlsTransfer = false)
    (hend : ∀ c ∈ b.copiesOver events, c.destination < 0x9FFF)
    (h : InCourse total number left b.ppu b.dma.vram count) :
    InCourse total number left (b.performAll events).ppu (b.performAll events).dma.vram
      (count + (b.copiesOver events).length) := by
  induction events generalizing b count with
  | nil => exact h
  | cons e rest ih =>
    obtain ⟨hkeep, hkeep'⟩ := List.forall_mem_cons.mp hkeep
    have hdisplay' := hdisplay.perform hkeep
    obtain ⟨hcontrol, hcontrol'⟩ := List.forall_mem_cons.mp hcontrol
    rw [performAll_cons]
    cases hcycle : e.isCycle with
    | true =>
      obtain rfl := e.eq_cycle hcycle
      rw [copiesOver_cycle] at hend ⊢
      have hnext := h.cycle hpos hdisplay fun c hc => hend c (List.mem_append_left _ hc)
      rw [List.length_append, ← Nat.add_assoc]
      exact ih hdisplay' hkeep' hcontrol' (fun c hc => hend c (List.mem_append_right _ hc)) hnext
    | false =>
      obtain ⟨hprogress, hdot⟩ := perform_still hdisplay.on hkeep hcycle
      have hvram := (perform_dma (b := b) hcycle).1 hcontrol
      rw [copiesOver_other hcycle] at hend ⊢
      have hnext := h.congr hprogress hdot
      rw [← hvram] at hnext
      exact ih hdisplay' hkeep' hcontrol' hend hnext

theorem afterByte_eq_none {blocks line n : Nat} (h : afterByte blocks line n = none) :
    n = blockLength ∧ blocks = 1 := by
  unfold afterByte at h
  split at h
  case isTrue hn =>
    split at h
    case isTrue hlast => exact ⟨hn, hlast⟩
    case isFalse => cases h
  case isFalse => cases h

theorem InCourse.length_of_none {p : Ppu} {t : Option VramTransfer}
    (h : InCourse total number left p t count) (ht : t = none) :
    count = headStart left + blockLength * total := by
  cases h with
  | waiting | short => cases ht
  | block blocks before hpos hblocks hnumber h =>
    obtain ⟨hfull, hlast⟩ := afterByte_eq_none (h.transfer.symm.trans ht)
    rw [← hblocks, hlast, hfull, Nat.mul_add, Nat.mul_one, Nat.add_assoc]
  | finished => rfl

theorem InCourse.blank_le {p : Ppu} {t : Option VramTransfer} (hpos : 0 < total)
    (h : InCourse total number left p t count) (ht : t ≠ none) :
    p.hblankCount ≤ number + total := by
  cases h with
  | waiting | short => omega
  | block blocks before hpos hblocks hnumber h =>
    have hfirst : firstBlank number left ≤ number + 1 := by
      unfold firstBlank
      split <;> omega
    omega
  | finished => exact absurd rfl ht

theorem headStart_eq_zero {left : Nat} : headStart left = 0 ↔ left = 0 ∨ blockLength ≤ left := by
  unfold headStart
  split <;> omega

theorem InCourse.count_le {p : Ppu} {t : Option VramTransfer}
    (h : InCourse total number left p t count) : count ≤ headStart left + blockLength * total := by
  cases h with
  | waiting => exact Nat.zero_le _
  | short n hshort hleft =>
    have hbefore : headStart left = left := if_pos hshort
    omega
  | block blocks before hpos hblocks hnumber h =>
    have hle := h.le
    have htotal : blockLength * (before + 1) ≤ blockLength * total :=
      Nat.mul_le_mul_left _ (by omega)
    rw [Nat.mul_add] at htotal
    omega
  | finished => exact Nat.le_refl _

theorem headStart_lt (left : Nat) : headStart left < blockLength := by
  unfold headStart
  split
  case isTrue hshort => exact hshort
  case isFalse => decide

/-- A transfer by blanks that is left alone comes to its end when all its blanks were entered. By
then it has copied its blocks from and to consecutive addresses, and it copied no more than them
exactly if it was started outside a blank or with room for a block in it. Each copy fills a byte of
the selected bank of video memory, and where nothing else writes there, what was copied is there at
the end and nothing else has changed. -/
theorem blank_transfer_copies (hreach : b.Reachable) (hcolor : b.model.isColor)
    (hon : b.ppu.lcdEnabled) {blocks : Nat} (hpos : 0 < blocks) (hle : blocks ≤ 128)
    {events : List Event} (hkeep : ∀ e ∈ events, e.keepsOn)
    (hcontrol : ∀ e ∈ events, e.controlsTransfer = false)
    (hend : ∀ c ∈ (b.write 0xFF55 (0x80 ||| UInt8.ofNat (blocks - 1))).copiesOver events,
      c.destination < 0x9FFF) :
    let start := b.write 0xFF55 (0x80 ||| UInt8.ofNat (blocks - 1))
    let copied := start.copiesOver events
    let last := start.performAll events
    let left := b.ppu.blankLeft
    (last.dma.vram = none → copied.length = headStart left + blockLength * blocks ∧
      (copied.length = blockLength * blocks ↔ left = 0 ∨ blockLength ≤ left)) ∧
    (b.ppu.hblankCount + blocks < last.ppu.hblankCount → last.dma.vram = none) ∧
    (∀ place, (∀ e ∈ events, e.sets place = false) →
      copied.map (·.place place) = addressesFrom (b.dma.place place) copied.length) ∧
    (∀ front rest, events = front ++ .cycle :: rest →
      let now := start.performAll front
      now.copies = [] ∧ now.cycle.ppu.vram = now.ppu.vram ∨
        now.copies = [⟨now.dma.source, now.dma.destination⟩] ∧ now.CopiesByte) ∧
    ((∀ place, ∀ e ∈ events, e.sets place = false) → (∀ e ∈ events, e.sparesVideo) →
      ∀ bank : Fin 2, b.ppu.vramBank = bank → last.dma.vram = none →
        start.Filled events bank (headStart left + blockLength * blocks)) := by
  intro start copied last left
  have hstart : start =
      { b with dma := b.dma.writeControl (0x80 ||| UInt8.ofNat (blocks - 1)) } :=
    write_transfer_register _ (by decide) (by simp [IoTarget.ofAddress, hcolor])
  rw [b.dma.writeControl_hblank hpos hle] at hstart
  have hvram : start.dma.vram = some (.hblank blocks none 0) := by rw [hstart]
  have hppu : start.ppu = b.ppu := by rw [hstart]
  have hdisplay : start.Displays := by
    have hdisplay := hreach.displays hon
    exact ⟨by rw [hppu]; exact hdisplay.on, by rw [hppu]; exact hdisplay.schedule⟩
  have hwaiting : InCourse blocks b.ppu.hblankCount left start.ppu start.dma.vram 0 := by
    rw [hvram, hppu]
    exact .waiting rfl rfl
  have hcourse := hwaiting.performAll hpos hdisplay hkeep hcontrol hend
  rw [Nat.zero_add] at hcourse
  have hwaits := waits_of_hblank hvram
  refine ⟨fun hover => ?_, fun hmany => ?_, fun place hsets => ?_, fun front rest hsplit => ?_,
    fun hsets hspares bank hbank hover => ?_⟩
  · have hlength : copied.length = _ := hcourse.length_of_none hover
    refine ⟨hlength, ?_⟩
    rw [← headStart_eq_zero, hlength]
    omega
  · refine Decidable.byContradiction fun hsome => ?_
    have hfew := hcourse.blank_le hpos hsome
    exact absurd hmany (Nat.not_lt.mpr hfew)
  · have hplace : start.dma.place place = b.dma.place place := by
      rw [hstart]
      cases place <;> rfl
    rw [← hplace]
    exact (copiesOver_place place hwaits hcontrol hsets hend).1
  · have hwaits' := performAll_waits hwaits fun e he =>
      hcontrol e (hsplit ▸ List.mem_append_left _ he)
    exact (copies_of_waiting hwaits').imp (fun hstill => ⟨hstill, cycle_vram_of_still hstill⟩)
      fun hcopy => ⟨hcopy, copiesByte_of_copies hcopy⟩
  · have hfew := hcourse.count_le
    have hshort := headStart_lt left
    rw [← hcourse.length_of_none hover]
    refine filled_of_waiting hwaits hcontrol hsets hspares hend ?_ ((congrArg _ hppu).trans hbank)
    simp only [blockLength] at hfew hshort
    omega

theorem exists_first_transfer : ∃ events : List Event, (∀ e ∈ events, e = .cycle) ∧
    cyclesOf events < 0x1FFF ∧ (bareTransfer.performAll events).dma.vram = none := by
  obtain ⟨b, h⟩ := exists_atFirstBlank
  obtain ⟨n, hn, hrun⟩ := h.run
  obtain ⟨after, hafter, hcount⟩ : ∃ after : List Event, (∀ e ∈ after, e = .cycle) ∧
    cyclesOf after = 15 := ⟨_, fun _ => List.eq_of_mem_replicate, cyclesOf_replicate 15⟩
  have hcycles : ∀ e ∈ Event.cycle :: after, e = .cycle := by simpa using hafter
  have hend := h.copiesBare.short hcycles (by rw [cyclesOf_cycle, hcount]; decide)
  have hblock := (h.block (fun e he => hafter e he ▸ rfl) (fun e he => hafter e he ▸ rfl)
    (by omega) hend).2.transfer
  refine ⟨List.replicate n .cycle ++ .cycle :: after, fun e he => ?_, ?_, ?_⟩
  · exact (List.mem_append.mp he).elim List.eq_of_mem_replicate (hcycles e)
  · rw [cyclesOf_append, cyclesOf_cycle, cyclesOf_replicate, hcount]
    omega
  · rw [hcount] at hblock
    rw [performAll_append, hrun]
    exact hblock

theorem first_transfer_copies : ∃ events : List Event,
    let start := bare.write 0xFF55 (0x80 ||| UInt8.ofNat (1 - 1))
    let last := start.performAll events
    bare.Reachable ∧ bare.model.isColor ∧ bare.ppu.lcdEnabled ∧ 0 < 1 ∧ 1 ≤ 128 ∧
      (∀ e ∈ events, e.keepsOn) ∧ (∀ e ∈ events, e.controlsTransfer = false) ∧
      (∀ c ∈ start.copiesOver events, c.destination < 0x9FFF) ∧
      last.dma.vram = none ∧ (start.copiesOver events).length = 16 ∧
      (start.copiesOver events).map (·.place .destination) = addressesFrom 0x8000 16 ∧
      (∀ offset, start.byte (.video 0 offset) = 0) ∧
      ∀ offset : Fin 0x2000, last.byte (.video 0 offset) = if offset.val < 16 then 0xFF else 0 := by
  obtain ⟨events, hquiet, hfew, hover⟩ := exists_first_transfer
  refine ⟨events, ?_⟩
  intro start last
  have hstart : start = bareTransfer :=
    congrArg (bare.write 0xFF55) (by decide : (0x80 ||| UInt8.ofNat (1 - 1) : UInt8) = 0x80)
  have hbare : CopiesBare start 0 0 := hstart ▸ bareTransfer_copiesBare
  have hbyte (offset : Fin 0x2000) : start.byte (.video 0 offset) = 0 :=
    hstart ▸ bareTransfer_byte offset
  have hkeep : ∀ e ∈ events, e.keepsOn := fun e he => hquiet e he ▸ rfl
  have hcontrol : ∀ e ∈ events, e.controlsTransfer = false := fun e he => hquiet e he ▸ rfl
  have hend := hbare.short hquiet (by omega)
  rw [← hstart] at hover
  have hon : bare.ppu.lcdEnabled := by decide
  obtain ⟨hlength, -, hplaces, -, hfilled⟩ := blank_transfer_copies bare_fresh.reachable rfl hon
    (by decide : 0 < 1) (by decide) hkeep hcontrol hend
  have hsixteen : (start.copiesOver events).length = 16 := (hlength hover).1
  have hfilled : start.Filled events 0 16 := hfilled
    (fun _ e he => hquiet e he ▸ rfl) (fun e he => hquiet e he ▸ rfl) 0 rfl hover
  refine ⟨bare_fresh.reachable, rfl, hon, by decide, by decide, hkeep, hcontrol, hend, hover,
    hsixteen, ?_, hbyte, fun offset => ?_⟩
  · have haddresses := hplaces .destination fun e he => hquiet e he ▸ rfl
    rw [hsixteen] at haddresses
    exact haddresses
  · have hbytes := hbare.byte hquiet (by decide) (by decide) hfilled offset
    rw [hbyte] at hbytes
    exact hbytes.trans (ite_congr (propext (by omega)) (fun _ => rfl) fun _ => rfl)

end Handheld.Bus
