import Handheld.Proofs.Bus.Reachable

/-!
Transfers that copy a block in each horizontal blank, over any course of events. A blank that is
entered lasts for a block, so a block is spread over two blanks only when its transfer starts in a
blank that is about to end.
-/

namespace Handheld.Bus
open Dma Ppu

variable {σ : Type} [ExternalMemory σ] {b : Bus σ} {blocks copied : Nat} {line : Option Nat}

structure Displays (b : Bus σ) : Prop where
  on : b.ppu.lcdEnabled
  schedule : b.ppu.OnSchedule

theorem Reachable.displays (h : b.Reachable) (hon : b.ppu.lcdEnabled) : b.Displays :=
  ⟨hon, h.sound.display hon⟩

theorem Displays.perform {e : Event} (h : b.Displays) (hkeep : e.keepsOn) :
    (b.perform e).Displays :=
  have hon := perform_lcdEnabled h.on hkeep
  ⟨hon, (perform_scheduled (fun _ => h.schedule) e).1 hon⟩

theorem Displays.performAll {events : List Event} (h : b.Displays)
    (hkeep : ∀ e ∈ events, e.keepsOn) : (b.performAll events).Displays :=
  performAll_invariant h fun _ e he hb => hb.perform (hkeep e he)

theorem Displays.blankStep (h : b.Displays) : BlankStep b.ppu b.cycle.ppu :=
  (step_blankStep h.on h.schedule).congr b.cycle_progress b.cycle_dot

theorem Displays.performAll_dot {events : List Event} (h : b.Displays)
    (hkeep : ∀ e ∈ events, e.keepsOn) :
    (b.performAll events).ppu.dot = (b.ppu.dot + cyclesOf events) % cyclesPerFrame := by
  induction events generalizing b with
  | nil => exact (Nat.mod_eq_of_lt h.schedule.dot_lt).symm
  | cons e rest ih =>
    obtain ⟨hkeep, hkeep'⟩ := List.forall_mem_cons.mp hkeep
    rw [performAll_cons, ih (h.perform hkeep) hkeep']
    cases hcycle : e.isCycle with
    | true =>
      obtain rfl := e.eq_cycle hcycle
      have hdot : (b.perform .cycle).ppu.dot = _ := b.cycle_dot.trans (step_dot h.on)
      rw [hdot, cyclesOf_cycle]
      split
      case isTrue hlast =>
        rw [show b.ppu.dot + (cyclesOf rest + 1) = cyclesPerFrame + cyclesOf rest by omega,
          Nat.add_mod_left, Nat.zero_add]
      case isFalse => rw [Nat.add_assoc, Nat.add_comm 1]
    | false =>
      rw [(perform_still h.on hkeep hcycle).2, cyclesOf_other hcycle]

theorem copies_of_idle (h : b.dma.vram = none) : b.copies = [] := by
  simp [Bus.copies, Dma.copies, h]

theorem copies_of_blank (hon : b.ppu.lcdEnabled)
    (h : b.dma.vram = some (.hblank blocks line copied)) (hmode : b.cycle.ppu.mode = .hblank) :
    b.copies = if copiedIn line copied b.cycle.ppu.hblankCount < blockLength then
      [⟨b.dma.source, b.dma.destination⟩] else [] := by
  simp only [Bus.copies, Dma.copies, h, stepPpu_blank hon, if_pos hmode]

/-- Nothing is copied outside the blanks, nor with the display off. -/
theorem blank_of_copies (h : b.dma.vram = some (.hblank blocks line copied))
    (hcopies : b.copies ≠ []) : b.ppu.lcdEnabled ∧ b.cycle.ppu.mode = .hblank := by
  cases hon : b.ppu.lcdEnabled with
  | false =>
    have hstep : b.stepPpu.ppu.lcdEnabled = false := b.ppu.step_lcdEnabled.trans hon
    have hblank : b.stepPpu.blank = none := by rw [blank_eq, hstep]; rfl
    exact absurd (by simp [Bus.copies, Dma.copies, h, hblank]) hcopies
  | true =>
    refine ⟨rfl, ?_⟩
    by_cases hmode : b.cycle.ppu.mode = .hblank
    · exact hmode
    · have hblank := stepPpu_blank hon
      rw [if_neg hmode] at hblank
      exact absurd (by simp [Bus.copies, Dma.copies, h, hblank]) hcopies

theorem copies_of_outside (h : b.dma.vram = some (.hblank blocks line copied))
    (hmode : b.cycle.ppu.mode ≠ .hblank) : b.copies = [] :=
  Decidable.byContradiction fun hsome => hmode (blank_of_copies h hsome).2

theorem cycle_vramState_of_idle (h : b.dma.vram = none) :
    b.cycle.dma.vramState = b.dma.vramState := by
  rw [b.cycle_dma]
  exact step_vramState_of_idle _ h

theorem cycle_vramState_of_still (h : b.dma.vram = some (.hblank blocks line copied))
    (hstill : b.copies = []) : b.cycle.dma.vramState = b.dma.vramState := by
  rw [b.cycle_dma]
  refine step_vramState_of_still _ h ?_
  rw [stepOam_hblank]
  exact hstill

theorem cycle_of_room (hon : b.ppu.lcdEnabled)
    (h : b.dma.vram = some (.hblank blocks line copied)) (hmode : b.cycle.ppu.mode = .hblank)
    (hmore : copiedIn line copied b.cycle.ppu.hblankCount < blockLength)
    (hend : ∀ c ∈ b.copies, c.destination < 0x9FFF) :
    b.copies = [⟨b.dma.source, b.dma.destination⟩] ∧ b.cycle.dma.vramState =
      ⟨afterByte blocks b.cycle.ppu.hblankCount (copiedIn line copied b.cycle.ppu.hblankCount + 1),
        b.dma.source + 1, b.dma.destination + 1⟩ := by
  have hcopies : b.copies = [⟨b.dma.source, b.dma.destination⟩] := by
    rw [copies_of_blank hon h hmode, if_pos hmore]
  have hblank : DmaBus.hblank (b.dma.stepOam b.stepPpu.stepTimer).2 =
      some b.cycle.ppu.hblankCount := by
    rw [stepOam_hblank]
    exact (stepPpu_blank hon).trans (if_pos hmode)
  refine ⟨hcopies, ?_⟩
  rw [b.cycle_dma]
  exact step_vramState_of_copy _ h hblank hmore (hend _ (hcopies ▸ List.mem_singleton_self _))

/-- In a blank of which `n` bytes of a block were copied, the transfer having come to it with so
many blocks to go. -/
structure InBlock (blocks : Nat) (p : Ppu) (transfer : Option VramTransfer) (n : Nat) : Prop where
  pos : 0 < n
  le : n ≤ blockLength
  room : blockLength ≤ n + p.blankLeft
  transfer : transfer = afterByte blocks p.hblankCount n

theorem afterByte_of_more {line n : Nat} (h : n < blockLength) :
    afterByte blocks line n = some (.hblank blocks (some line) n) := by
  rw [afterByte, if_neg (Nat.ne_of_lt h)]

theorem afterByte_of_block {line : Nat} (h : blocks ≠ 1) : afterByte blocks line blockLength =
    some (.hblank (blocks - 1) (some line) blockLength) := by
  simp [afterByte, h]

theorem inBlock_of_first (hon : b.ppu.lcdEnabled)
    (h : b.dma.vram = some (.hblank blocks line copied)) (hmode : b.cycle.ppu.mode = .hblank)
    (hnew : copiedIn line copied b.cycle.ppu.hblankCount = 0)
    (hlong : blockLength ≤ 1 + b.cycle.ppu.blankLeft)
    (hend : ∀ c ∈ b.copies, c.destination < 0x9FFF) :
    b.copies.length = 1 ∧ InBlock blocks b.cycle.ppu b.cycle.dma.vram 1 := by
  obtain ⟨hcopies, hstate⟩ := cycle_of_room hon h hmode (by rw [hnew]; decide) hend
  rw [hnew] at hstate
  exact ⟨by simp [hcopies], by decide, by decide, hlong, congrArg VramState.vram hstate⟩

theorem copiedIn_same (current n : Nat) : copiedIn (some current) n current = n := if_pos rfl

theorem copiedIn_other {line current : Nat} (h : line ≠ current) (n : Nat) :
    copiedIn (some line) n current = 0 := if_neg (by simpa using h)

theorem InBlock.cycle {n : Nat} (hdisplay : b.Displays)
    (hsame : b.cycle.ppu.hblankCount = b.ppu.hblankCount)
    (hend : ∀ c ∈ b.copies, c.destination < 0x9FFF) (h : InBlock blocks b.ppu b.dma.vram n) :
    n + b.copies.length = min blockLength (n + 1) ∧
      InBlock blocks b.cycle.ppu b.cycle.dma.vram (min blockLength (n + 1)) := by
  have hpos := h.pos
  have hroom := h.room
  -- with bytes to go there are dots to go, so the cycle stays in the blank and copies one
  rcases Nat.lt_or_ge n blockLength with hmore | hfull
  · have ht := h.transfer.trans (afterByte_of_more hmore)
    have hmin : min blockLength (n + 1) = n + 1 := by omega
    cases hdisplay.blankStep with
    | leave hleft | enter hleft => omega
    | stay hleft hmode hcount =>
      have hcopied : copiedIn (some b.ppu.hblankCount) n b.cycle.ppu.hblankCount = n := by
        rw [hcount, copiedIn_same]
      obtain ⟨hcopies, hstate⟩ :=
        cycle_of_room hdisplay.on ht hmode (by rw [hcopied]; exact hmore) hend
      rw [hcopied] at hstate
      rw [hmin]
      exact ⟨by simp [hcopies], by omega, by omega, by omega, congrArg VramState.vram hstate⟩
  · have hle := h.le
    have hn : n = blockLength := by omega
    subst hn
    have hstill : b.copies = [] ∧ b.cycle.dma.vramState = b.dma.vramState := by
      by_cases hlast : blocks = 1
      · subst hlast
        exact ⟨copies_of_idle h.transfer, cycle_vramState_of_idle h.transfer⟩
      · have ht := h.transfer.trans (afterByte_of_block hlast)
        have hcopies : b.copies = [] := by
          by_cases hmode : b.cycle.ppu.mode = .hblank
          · rw [copies_of_blank hdisplay.on ht hmode, hsame, copiedIn_same, if_neg (by omega)]
          · exact copies_of_outside ht hmode
        exact ⟨hcopies, cycle_vramState_of_still ht hcopies⟩
    obtain ⟨hcopies, hstate⟩ := hstill
    have hmin : min blockLength (blockLength + 1) = blockLength := by omega
    have ht : b.cycle.dma.vram = b.dma.vram := congrArg VramState.vram hstate
    rw [hmin]
    exact ⟨by simp [hcopies], by omega, by omega, by omega, by rw [ht, hsame]; exact h.transfer⟩

theorem InBlock.congr {p q : Ppu} {t : Option VramTransfer} {n : Nat}
    (hprogress : q.progress = p.progress) (hdot : q.dot = p.dot) (h : InBlock blocks p t n) :
    InBlock blocks q t n := by
  have hcount : q.hblankCount = p.hblankCount := congrArg Progress.hblankCount hprogress
  exact ⟨h.pos, h.le, by rw [blankLeft_congr hprogress hdot]; exact h.room, by
    rw [hcount]; exact h.transfer⟩

/-- Over the rest of a blank, and up to the next one, every cycle copies a byte until the block is
complete. -/
theorem InBlock.performAll {n : Nat} {events : List Event} (hdisplay : b.Displays)
    (hkeep : ∀ e ∈ events, e.keepsOn) (hcontrol : ∀ e ∈ events, e.controlsTransfer = false)
    (hsame : (b.performAll events).ppu.hblankCount = b.ppu.hblankCount)
    (hend : ∀ c ∈ b.copiesOver events, c.destination < 0x9FFF)
    (h : InBlock blocks b.ppu b.dma.vram n) :
    n + (b.copiesOver events).length = min blockLength (n + cyclesOf events) ∧
      InBlock blocks (b.performAll events).ppu (b.performAll events).dma.vram
        (min blockLength (n + cyclesOf events)) := by
  induction events generalizing b n with
  | nil =>
    have hmin : min blockLength n = n := Nat.min_eq_right h.le
    rw [cyclesOf_nil, Nat.add_zero, hmin]
    exact ⟨rfl, h⟩
  | cons e rest ih =>
    obtain ⟨hkeep, hkeep'⟩ := List.forall_mem_cons.mp hkeep
    have hdisplay' := hdisplay.perform hkeep
    obtain ⟨hcontrol, hcontrol'⟩ := List.forall_mem_cons.mp hcontrol
    have hmore := (perform_scheduled (fun _ => hdisplay.schedule) e).2
    have hrest := performAll_hblankCount_le (fun _ => hdisplay'.schedule) rest
    rw [performAll_cons] at hsame
    cases hcycle : e.isCycle with
    | true =>
      obtain rfl := e.eq_cycle hcycle
      rw [copiesOver_cycle] at hend ⊢
      have hstay : b.cycle.ppu.hblankCount = b.ppu.hblankCount :=
        Nat.le_antisymm (by rw [← hsame]; exact hrest) hmore
      obtain ⟨hcopied, hnext⟩ := h.cycle hdisplay hstay fun c hc => hend c (by simp [hc])
      obtain ⟨hlength, hlast⟩ := ih hdisplay' hkeep' hcontrol' (by omega)
        (fun c hc => hend c (List.mem_append_right _ hc)) hnext
      have hmin : min blockLength (min blockLength (n + 1) + cyclesOf rest) =
          min blockLength (n + cyclesOf (.cycle :: rest)) := by
        rw [cyclesOf_cycle]
        omega
      rw [hmin] at hlength hlast
      refine ⟨?_, hlast⟩
      rw [← hlength, ← hcopied, List.length_append, Nat.add_assoc]
      rfl
    | false =>
      obtain ⟨hprogress, hdot⟩ := perform_still hdisplay.on hkeep hcycle
      have hvram := (perform_dma (b := b) hcycle).1 hcontrol
      rw [copiesOver_other hcycle] at hend ⊢
      rw [cyclesOf_other hcycle]
      have hnext := h.congr hprogress hdot
      rw [← hvram] at hnext
      exact ih hdisplay' hkeep' hcontrol' (by omega) hend hnext

omit [ExternalMemory σ] in
theorem waits_of_hblank (h : b.dma.vram = some (.hblank blocks line copied)) (n : Nat) :
    b.dma.vram ≠ some (.general n) := by
  rw [h]
  simp

theorem cycle_waits (h : ∀ n, b.dma.vram ≠ some (.general n)) (n : Nat) :
    b.cycle.dma.vram ≠ some (.general n) := by
  rw [b.cycle_dma]
  rcases b.dma.step_vram_cases b.stepPpu.stepTimer with
    hsame | hnone | ⟨blocks, line, copied, current, -, -, -, hnext⟩
  · rw [hsame]; exact h n
  · rw [hnone]; simp
  · rw [hnext, afterByte]
    split
    · split <;> simp
    · simp

theorem performAll_waits {events : List Event} (h : ∀ n, b.dma.vram ≠ some (.general n))
    (hcontrol : ∀ e ∈ events, e.controlsTransfer = false) (n : Nat) :
    (b.performAll events).dma.vram ≠ some (.general n) := by
  refine performAll_invariant (I := fun b => ∀ n, b.dma.vram ≠ some (.general n)) h
    (fun b e he hb => ?_) n
  cases hcycle : e.isCycle with
  | true =>
    obtain rfl := e.eq_cycle hcycle
    exact cycle_waits hb
  | false =>
    rw [(perform_dma hcycle).1 (hcontrol e he)]
    exact hb

theorem cycle_place (h : ∀ n, b.dma.vram ≠ some (.general n))
    (hend : ∀ c ∈ b.copies, c.destination < 0x9FFF) (place : CopyEnd) :
    b.copies.map (·.place place) = addressesFrom (b.dma.place place) b.copies.length ∧
      b.cycle.dma.place place = b.dma.place place + UInt16.ofNat b.copies.length := by
  by_cases hstill : b.copies = []
  · have hstate : b.cycle.dma.vramState = b.dma.vramState := by
      rcases ht : b.dma.vram with _ | blocks | ⟨blocks, line, copied⟩
      · exact cycle_vramState_of_idle ht
      · exact absurd ht (h blocks)
      · exact cycle_vramState_of_still ht hstill
    have hplace : b.cycle.dma.place place = b.dma.place place := by
      cases place with
      | source => exact congrArg VramState.source hstate
      | destination => exact congrArg VramState.destination hstate
    rw [hstill, hplace]
    simp [addressesFrom]
  · rcases ht : b.dma.vram with _ | blocks | ⟨blocks, line, copied⟩
    · exact absurd (copies_of_idle ht) hstill
    · exact absurd ht (h blocks)
    · obtain ⟨hon, hmode⟩ := blank_of_copies ht hstill
      have hmore : copiedIn line copied b.cycle.ppu.hblankCount < blockLength := by
        rw [copies_of_blank hon ht hmode] at hstill
        by_cases hroom : copiedIn line copied b.cycle.ppu.hblankCount < blockLength
        · exact hroom
        · simp [hroom] at hstill
      obtain ⟨hcopies, hstate⟩ := cycle_of_room hon ht hmode hmore hend
      rw [hcopies]
      cases place with
      | source =>
        exact ⟨by simp [addressesFrom, VramCopy.place, Dma.place], congrArg VramState.source hstate⟩
      | destination =>
        exact ⟨by simp [addressesFrom, VramCopy.place, Dma.place],
          congrArg VramState.destination hstate⟩

/-- While nothing sets a place, the copies go through consecutive ones. -/
theorem copiesOver_place (place : CopyEnd) {events : List Event}
    (h : ∀ n, b.dma.vram ≠ some (.general n))
    (hcontrol : ∀ e ∈ events, e.controlsTransfer = false)
    (hsets : ∀ e ∈ events, e.sets place = false)
    (hend : ∀ c ∈ b.copiesOver events, c.destination < 0x9FFF) :
    (b.copiesOver events).map (·.place place) =
        addressesFrom (b.dma.place place) (b.copiesOver events).length ∧
      (b.performAll events).dma.place place =
        b.dma.place place + UInt16.ofNat (b.copiesOver events).length := by
  induction events generalizing b with
  | nil => exact ⟨rfl, (UInt16.add_zero _).symm⟩
  | cons e rest ih =>
    obtain ⟨hcontrol, hcontrol'⟩ := List.forall_mem_cons.mp hcontrol
    obtain ⟨hsets, hsets'⟩ := List.forall_mem_cons.mp hsets
    rw [performAll_cons]
    cases hcycle : e.isCycle with
    | true =>
      obtain rfl := e.eq_cycle hcycle
      rw [copiesOver_cycle] at hend ⊢
      obtain ⟨hcopies, hplace⟩ :=
        cycle_place h (fun c hc => hend c (List.mem_append_left _ hc)) place
      obtain ⟨hrest, hlast⟩ := ih (cycle_waits h) hcontrol' hsets'
        fun c hc => hend c (List.mem_append_right _ hc)
      rw [List.map_append, List.length_append, addressesFrom_add, hcopies, hrest, hplace,
        UInt16.ofNat_add, ← UInt16.add_assoc, ← hplace]
      exact ⟨rfl, hlast⟩
    | false =>
      obtain ⟨hvram, hplace⟩ := perform_dma (b := b) hcycle
      have hvram := hvram hcontrol
      have hplace := hplace place hsets
      rw [copiesOver_other hcycle] at hend ⊢
      rw [← hplace]
      exact ih (by rw [hvram]; exact h) hcontrol' hsets' hend

theorem copies_of_waiting (h : ∀ n, b.dma.vram ≠ some (.general n)) :
    b.copies = [] ∨ b.copies = [⟨b.dma.source, b.dma.destination⟩] := by
  rcases ht : b.dma.vram with _ | blocks | ⟨blocks, line, copied⟩
  · exact .inl (copies_of_idle ht)
  · exact absurd ht (h blocks)
  · cases hblank : b.stepPpu.blank with
    | none => simp [Bus.copies, Dma.copies, ht, hblank]
    | some current =>
      simp only [Bus.copies, Dma.copies, ht, hblank]
      split
      · exact .inr rfl
      · exact .inl rfl

theorem copiesOver_short {events : List Event} (h : ∀ n, b.dma.vram ≠ some (.general n))
    (hcontrol : ∀ e ∈ events, e.controlsTransfer = false)
    (hsets : ∀ e ∈ events, e.sets .destination = false)
    (hroom : b.dma.destination.toNat + cyclesOf events < 0x9FFF) :
    ∀ c ∈ b.copiesOver events, c.destination < 0x9FFF := by
  induction events generalizing b with
  | nil => simp [copiesOver]
  | cons e rest ih =>
    obtain ⟨hcontrol, hcontrol'⟩ := List.forall_mem_cons.mp hcontrol
    obtain ⟨hsets, hsets'⟩ := List.forall_mem_cons.mp hsets
    cases hcycle : e.isCycle with
    | true =>
      obtain rfl := e.eq_cycle hcycle
      rw [cyclesOf_cycle] at hroom
      have hfirst : ∀ c ∈ b.copies, c.destination < 0x9FFF := by
        intro c hc
        have hdestination : c.destination = b.dma.destination := by
          rcases copies_of_waiting h with hnone | hone
          · rw [hnone] at hc; cases hc
          · rw [hone] at hc; rw [List.mem_singleton.mp hc]
        rw [hdestination, UInt16.lt_iff_toNat_lt]
        exact Nat.lt_of_le_of_lt (Nat.le_add_right _ _) hroom
      have hplace : b.cycle.dma.destination = _ := (cycle_place h hfirst .destination).2
      have hlength : b.copies.length ≤ 1 := by
        rcases copies_of_waiting h with hnone | hone
        · rw [hnone]; exact Nat.zero_le 1
        · rw [hone]; exact Nat.le_refl 1
      have hnext : b.cycle.dma.destination.toNat = b.dma.destination.toNat + b.copies.length := by
        rw [hplace, UInt16.toNat_add, UInt16.toNat_ofNat']
        change (b.dma.destination.toNat + _) % _ = _
        omega
      rw [copiesOver_cycle]
      intro c hc
      rcases List.mem_append.mp hc with hc | hc
      · exact hfirst c hc
      · exact ih (cycle_waits h) hcontrol' hsets' (by omega) c hc
    | false =>
      obtain ⟨hvram, hplace⟩ := perform_dma (b := b) hcycle
      have hvram := hvram hcontrol
      have hplace : (b.perform e).dma.destination = b.dma.destination :=
        hplace .destination hsets
      rw [cyclesOf_other hcycle] at hroom
      rw [copiesOver_other hcycle]
      exact ih (by rw [hvram]; exact h) hcontrol' hsets' (by rw [hplace]; exact hroom)

end Handheld.Bus
