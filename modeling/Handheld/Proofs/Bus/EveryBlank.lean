import Handheld.Proofs.Bus.BlankMemory

/-!
What a transfer by blanks does in each blank that is entered: one block, no more, and nothing
between the blanks.
-/

namespace Handheld.Bus
open Dma Ppu

variable {σ : Type} [ExternalMemory σ] {b : Bus σ} {blocks copied : Nat} {line : Option Nat}

theorem InBlock.readControl {d : Dma} {p : Ppu} (h : InBlock blocks p d.vram blockLength)
    (hpos : 0 < blocks) (hle : blocks ≤ 128) {v : UInt8} (hv : v.toNat = blocks - 1) :
    d.readControl = if blocks = 1 then 0xFF else v - 1 := by
  split
  case isTrue hlast =>
    subst hlast
    exact readControl_of_idle h.transfer
  case isFalse hmore =>
    have hnext := readControl_of_blocks (h.transfer.trans (afterByte_of_block hmore)) (by omega)
    have hone : (1 : UInt8) ≤ v := by
      rw [UInt8.le_iff_toNat_le, hv]
      change 1 ≤ blocks - 1
      omega
    rw [← UInt8.toNat_inj, UInt8.toNat_sub_of_le _ _ hone, hnext, hv]
    rfl

theorem inBlock_of_entry (hreach : b.Reachable)
    (h : b.dma.vram = some (.hblank blocks line copied)) (hon : b.ppu.lcdEnabled)
    (hout : b.ppu.mode ≠ .hblank) (hin : b.cycle.ppu.mode = .hblank)
    (hend : ∀ c ∈ b.copies, c.destination < 0x9FFF) :
    b.copies.length = 1 ∧ InBlock blocks b.cycle.ppu b.cycle.dma.vram 1 := by
  obtain ⟨-, -, -, hline⟩ := hreach.sound.transfer _ h
  have hdisplay := hreach.displays hon
  cases hdisplay.blankStep with
  | stay hleft =>
    rw [blankLeft_of_mode hout] at hleft
    omega
  | leave _ hmode => exact absurd hin hmode
  | enter _ _ hcount hlong =>
    refine inBlock_of_first hon h hin (if_neg fun hsame => ?_) ?_ hend
    · have hle := hline _ hsame
      omega
    · simp only [blockLength]
      omega

theorem block_of_entry (hreach : b.Reachable) (h : b.dma.vram = some (.hblank blocks line copied))
    (hon : b.ppu.lcdEnabled) (hout : b.ppu.mode ≠ .hblank) (hin : b.cycle.ppu.mode = .hblank)
    {after : List Event} (hkeep : ∀ e ∈ after, e.keepsOn)
    (hcontrol : ∀ e ∈ after, e.controlsTransfer = false)
    (hsame : (b.cycle.performAll after).ppu.hblankCount = b.cycle.ppu.hblankCount)
    (hend : ∀ c ∈ b.copiesOver (.cycle :: after), c.destination < 0x9FFF) :
    (b.copiesOver (.cycle :: after)).length = min blockLength (cyclesOf (.cycle :: after)) ∧
      InBlock blocks (b.cycle.performAll after).ppu (b.cycle.performAll after).dma.vram
        (min blockLength (cyclesOf (.cycle :: after))) := by
  have hdisplay : b.cycle.Displays := (hreach.displays hon).perform (e := .cycle) rfl
  rw [copiesOver_cycle] at hend
  obtain ⟨hfirst, hentry⟩ := inBlock_of_entry hreach h hon hout hin
    fun c hc => hend c (List.mem_append_left _ hc)
  obtain ⟨hlength, hlast⟩ := hentry.performAll hdisplay hkeep hcontrol hsame
    fun c hc => hend c (List.mem_append_right _ hc)
  rw [copiesOver_cycle, List.length_append, hfirst, cyclesOf_cycle, Nat.add_comm (cyclesOf after)]
  exact ⟨hlength, hlast⟩

theorem copiesOver_length_of_entry (hreach : b.Reachable)
    (h : b.dma.vram = some (.hblank blocks line copied)) (hon : b.ppu.lcdEnabled)
    (hout : b.ppu.mode ≠ .hblank) (hin : b.cycle.ppu.mode = .hblank) {after pre : List Event}
    (hkeep : ∀ e ∈ after, e.keepsOn) (hcontrol : ∀ e ∈ after, e.controlsTransfer = false)
    (hsame : (b.cycle.performAll after).ppu.hblankCount = b.cycle.ppu.hblankCount)
    (hend : ∀ c ∈ b.copiesOver (.cycle :: after), c.destination < 0x9FFF)
    (hpre : pre <+: .cycle :: after) :
    (b.copiesOver pre).length = min blockLength (cyclesOf pre) := by
  obtain ⟨tail, htail⟩ := hpre
  cases pre with
  | nil => rfl
  | cons e pre =>
    obtain ⟨rfl, hafter⟩ := List.cons.inj htail
    obtain rfl : after = pre ++ tail := hafter.symm
    have hfirst {e : Event} (he : e ∈ pre) : e ∈ pre ++ tail := List.mem_append_left _ he
    have hdisplay := (hreach.displays hon).perform (e := .cycle) rfl
    have hdisplay' := hdisplay.performAll fun e he => hkeep e (hfirst he)
    have hlow := performAll_hblankCount_le (fun _ => hdisplay.schedule) pre
    have hhigh := performAll_hblankCount_le (fun _ => hdisplay'.schedule) tail
    have hsame' : (b.cycle.performAll pre).ppu.hblankCount = b.cycle.ppu.hblankCount := by
      refine Nat.le_antisymm (Nat.le_trans hhigh (Nat.le_of_eq ?_)) hlow
      rw [← hsame, performAll_append]
      rfl
    refine (block_of_entry hreach h hon hout hin (fun e he => hkeep e (hfirst he))
      (fun e he => hcontrol e (hfirst he)) hsame' fun c hc => hend c ?_).1
    rw [← List.cons_append, copiesOver_append]
    exact List.mem_append_left _ hc

/-- The first cycles of a blank copy a byte each, and the others none. -/
theorem cycle_of_entry (hreach : b.Reachable) (h : b.dma.vram = some (.hblank blocks line copied))
    (hon : b.ppu.lcdEnabled) (hout : b.ppu.mode ≠ .hblank) (hin : b.cycle.ppu.mode = .hblank)
    {after front rest : List Event} (hkeep : ∀ e ∈ after, e.keepsOn)
    (hcontrol : ∀ e ∈ after, e.controlsTransfer = false)
    (hsame : (b.cycle.performAll after).ppu.hblankCount = b.cycle.ppu.hblankCount)
    (hend : ∀ c ∈ b.copiesOver (.cycle :: after), c.destination < 0x9FFF)
    (hsplit : .cycle :: after = front ++ .cycle :: rest) :
    let now := b.performAll front
    (cyclesOf front < blockLength → now.CopiesByte) ∧
      (blockLength ≤ cyclesOf front → now.cycle.ppu.vram = now.ppu.vram) := by
  intro now
  have hquiet : ∀ e ∈ front, e.controlsTransfer = false := by
    intro e he
    have hmem : e ∈ .cycle :: after := hsplit ▸ List.mem_append_left _ he
    rcases List.mem_cons.mp hmem with rfl | hmem
    · rfl
    · exact hcontrol e hmem
  have hfront : front <+: .cycle :: after := ⟨_, hsplit.symm⟩
  have hlonger : front ++ [.cycle] <+: .cycle :: after := ⟨rest, by simpa using hsplit.symm⟩
  have hcount {pre : List Event} (hpre : pre <+: .cycle :: after) :=
    copiesOver_length_of_entry hreach h hon hout hin hkeep hcontrol hsame hend hpre
  have hbefore := hcount hfront
  have hthrough := hcount hlonger
  have hone : (b.copiesOver (front ++ [.cycle])).length =
      (b.copiesOver front).length + now.copies.length := by
    rw [copiesOver_append, List.length_append, copiesOver_cycle]
    exact congrArg _ (congrArg List.length (List.append_nil _))
  rw [cyclesOf_append, cyclesOf_cycle, cyclesOf_nil, Nat.zero_add] at hthrough
  rcases copies_of_waiting (performAll_waits (waits_of_hblank h) hquiet) with hstill | hcopy
  · have hnone : now.copies.length = 0 := congrArg List.length hstill
    exact ⟨fun hmore => by omega, fun _ => cycle_vram_of_still hstill⟩
  · have hsome : now.copies.length = 1 := congrArg List.length hcopy
    exact ⟨fun _ => copiesByte_of_copies hcopy, fun hfull => by omega⟩

/-- Cycles that come to a blank enter one, and until then the transfer stands still. -/
theorem exists_entry (k : Nat) (hdisplay : b.Displays)
    (h : b.dma.vram = some (.hblank blocks line copied)) (hout : b.ppu.mode ≠ .hblank)
    (hin : (b.performAll (List.replicate k .cycle)).ppu.mode = .hblank) :
    ∃ n < k, let entry := b.performAll (List.replicate n .cycle)
      entry.dma.vramState = b.dma.vramState ∧ entry.ppu.vram = b.ppu.vram ∧ entry.Displays ∧
        entry.ppu.mode ≠ .hblank ∧ entry.cycle.ppu.mode = .hblank := by
  induction k generalizing b with
  | zero => exact absurd hin hout
  | succ k ih =>
    by_cases hnext : b.cycle.ppu.mode = .hblank
    · exact ⟨0, Nat.succ_pos k, rfl, rfl, hdisplay, hout, hnext⟩
    · have hstill := copies_of_outside h hnext
      have hstate := cycle_vramState_of_still h hstill
      have hvram : b.cycle.dma.vram = b.dma.vram := congrArg VramState.vram hstate
      rw [List.replicate_succ] at hin
      obtain ⟨n, hn, hsame, hmemory, hentry⟩ :=
        ih (hdisplay.perform (e := .cycle) rfl) (hvram.trans h) hnext hin
      exact ⟨n + 1, Nat.succ_lt_succ hn, hsame.trans hstate,
        hmemory.trans (cycle_vram_of_still hstill), hentry⟩

def bareTransfer : Bus VolatileRam := bare.write 0xFF55 0x80

theorem bareTransfer_reachable : bareTransfer.Reachable :=
  bare_fresh.reachable.performAll [.write 0xFF55 0x80]

theorem bareTransfer_state : bareTransfer.dma.vramState = ⟨some (.hblank 1 none 0), 0, 0x8000⟩ := by
  decide

theorem bareTransfer_displays : bareTransfer.Displays :=
  bareTransfer_reachable.displays (by decide)

theorem keepsOn_of_replicate {n : Nat} {e : Event} (h : e ∈ List.replicate n .cycle) :
    e.keepsOn := List.eq_of_mem_replicate h ▸ rfl

/-- A cycle before the first blank in which the transfer of a block copies. -/
structure AtFirstBlank (b : Bus VolatileRam) : Prop where
  run : ∃ n < 455, bareTransfer.performAll (List.replicate n .cycle) = b
  reachable : b.Reachable
  color : b.model.isColor
  transfer : b.dma.vram = some (.hblank 1 none 0)
  source : b.dma.source = 0
  destination : b.dma.destination = 0x8000
  vram : b.ppu.vram = bareTransfer.ppu.vram
  displays : b.Displays
  outside : b.ppu.mode ≠ .hblank
  inside : b.cycle.ppu.mode = .hblank

theorem exists_atFirstBlank : ∃ b, AtFirstBlank b := by
  have hkeep : ∀ e ∈ List.replicate 455 Event.cycle, e.keepsOn :=
    fun _ => keepsOn_of_replicate
  have hlate : (bareTransfer.performAll (List.replicate 455 .cycle)).ppu.mode = .hblank := by
    have hstart : bareTransfer.ppu.dot = 0 := rfl
    have hdot := bareTransfer_displays.performAll_dot hkeep
    rw [hstart, cyclesOf_replicate] at hdot
    exact (bareTransfer_displays.performAll hkeep).schedule.blank_of_late
      (by rw [hdot]; decide) (by rw [hdot]; decide)
  obtain ⟨n, hn, hstate, hmemory, hdisplay, hout, hin⟩ := exists_entry 455 bareTransfer_displays
    (congrArg VramState.vram bareTransfer_state) (by decide) hlate
  rw [bareTransfer_state] at hstate
  exact ⟨_, ⟨n, hn, rfl⟩, bareTransfer_reachable.performAll _, by rw [performAll_model]; rfl,
    congrArg VramState.vram hstate, congrArg VramState.source hstate,
    congrArg VramState.destination hstate, hmemory, hdisplay, hout, hin⟩

theorem bare_peek : ∀ i < 16, Region.ofAddress (dmaAddress (UInt16.ofNat i)) = .cartridge ∧
    bare.peek (dmaAddress (UInt16.ofNat i)) = 0xFF := by
  decide

/-- A console without a program that has its first addresses copied. -/
structure CopiesBare (b : Bus VolatileRam) (source start : Nat) : Prop where
  waits : ∀ n, b.dma.vram ≠ some (.general n)
  memory : bare.SameMemory b
  bank : b.ppu.vramBank = (0 : Fin 2)
  source : b.dma.source = UInt16.ofNat source
  destination : b.dma.destination = UInt16.ofNat (0x8000 + start)

namespace CopiesBare
variable {b : Bus VolatileRam} {events : List Event} {source start n : Nat}

theorem place_toNat (h : CopiesBare b source start) (hroom : start < 0x1FFF) :
    b.dma.destination.toNat = 0x8000 + start := by
  rw [h.destination, UInt16.toNat_ofNat']
  exact Nat.mod_eq_of_lt (by omega)

theorem short (h : CopiesBare b source start) (hcycles : ∀ e ∈ events, e = .cycle)
    (hroom : start + cyclesOf events < 0x1FFF) :
    ∀ c ∈ b.copiesOver events, c.destination < 0x9FFF := by
  have hplace := h.place_toNat (by omega)
  exact copiesOver_short h.waits (fun e he => hcycles e he ▸ rfl)
    (fun e he => hcycles e he ▸ rfl) (by omega)

theorem cycles (h : CopiesBare b source start) (hcycles : ∀ e ∈ events, e = .cycle)
    (hroom : start + cyclesOf events < 0x1FFF) (hcount : (b.copiesOver events).length = n) :
    (b.copiesOver events).map VramCopy.destination = addressesFrom b.dma.destination n ∧
      CopiesBare (b.performAll events) (source + n) (start + n) := by
  have hplaces (place : CopyEnd) := copiesOver_place place h.waits
    (fun e he => hcycles e he ▸ rfl) (fun e he => hcycles e he ▸ rfl) (h.short hcycles hroom)
  rw [hcount] at hplaces
  refine ⟨(hplaces .destination).1, ?_, ?_, ?_, ?_, ?_⟩
  · exact performAll_waits h.waits fun e he => hcycles e he ▸ rfl
  · refine h.memory.trans (performAll_sameMemory _ fun e he a v => ?_)
    simp [hcycles e he]
  · exact (performAll_vramBank fun e he => hcycles e he ▸ rfl).trans h.bank
  · rw [UInt16.ofNat_add, ← h.source]
    exact (hplaces .source).2
  · rw [← Nat.add_assoc, UInt16.ofNat_add, ← h.destination]
    exact (hplaces .destination).2

theorem filled (h : CopiesBare b source start) (hcycles : ∀ e ∈ events, e = .cycle)
    (hroom : start + cyclesOf events < 0x1FFF) (hcount : (b.copiesOver events).length = n)
    (hfew : n ≤ 0x2000) : b.Filled events 0 n := by
  subst hcount
  exact filled_of_waiting h.waits (fun e he => hcycles e he ▸ rfl)
    (fun _ e he => hcycles e he ▸ rfl) (fun e he => hcycles e he ▸ rfl) (h.short hcycles hroom)
    hfew h.bank

theorem byte (h : CopiesBare b source start) (hcycles : ∀ e ∈ events, e = .cycle)
    (hroom : start + n < 0x1FFF) (hfew : source + n ≤ 16) (hfilled : b.Filled events 0 n)
    (offset : Fin 0x2000) : (b.performAll events).byte (.video 0 offset) =
      if start ≤ offset ∧ offset < start + n then 0xFF else b.byte (.video 0 offset) := by
  have hread (i : Nat) (hi : i < n) :
      Region.ofAddress (dmaAddress (b.dma.source + UInt16.ofNat i)) = .cartridge ∧
        b.peek (dmaAddress (b.dma.source + UInt16.ofNat i)) = 0xFF := by
    obtain ⟨hregion, hbyte⟩ := bare_peek (source + i) (by omega)
    rw [h.source, ← UInt16.ofNat_add, h.memory.peek (.inr hregion)]
    exact ⟨hregion, hbyte⟩
  rw [hfilled.byte_of_cycles hcycles (h.place_toNat (by omega)) (by omega)
    fun i hi => by simp [(hread i hi).1]]
  refine ite_congr rfl (fun hin => (hread _ ?_).2) fun _ => rfl
  omega

theorem moved (h : CopiesBare b source start) (hcolor : b.model.isColor)
    (hbits : vramDestination ((b.dma.destination &&& 0x1F00) ||| UInt8.toUInt16 0x40) = 0x8040) :
    let written := b.perform (.write 0xFF54 0x40)
    CopiesBare written source 0x40 ∧ written.ppu.vram = b.ppu.vram := by
  intro written
  have hwritten : b.write 0xFF54 0x40 = { b with dma := b.dma.write 0xFF54 0x40 } :=
    write_transfer_register 0x40 (by decide) (by simp [IoTarget.ofAddress, hcolor])
  rw [show written = _ from hwritten]
  obtain ⟨hcartridge, hwram, hbank, hhram⟩ := h.memory
  exact ⟨⟨h.waits, ⟨hcartridge, hwram, hbank, hhram⟩, h.bank, h.source, hbits⟩, rfl⟩

end CopiesBare

theorem bareTransfer_copiesBare : CopiesBare bareTransfer 0 0 :=
  ⟨waits_of_hblank (congrArg VramState.vram bareTransfer_state), ⟨rfl, rfl, rfl, rfl⟩, rfl, rfl, rfl⟩

theorem AtFirstBlank.copiesBare {b : Bus VolatileRam} (h : AtFirstBlank b) : CopiesBare b 0 0 := by
  refine ⟨waits_of_hblank h.transfer, ?_, ?_, h.source, h.destination⟩ <;>
    obtain ⟨n, -, rfl⟩ := h.run
  · refine bareTransfer_copiesBare.memory.trans (performAll_sameMemory _ fun e he a v => ?_)
    simp [List.eq_of_mem_replicate he]
  · exact performAll_vramBank (b := bareTransfer) fun e he => List.eq_of_mem_replicate he ▸ rfl

theorem bareTransfer_byte (offset : Fin 0x2000) : bareTransfer.byte (.video 0 offset) = 0 :=
  (cleared_new _ _).afterBoot.byte (.video 0 offset)

theorem AtFirstBlank.byte_zero {b : Bus VolatileRam} (h : AtFirstBlank b) (offset : Fin 0x2000) :
    b.byte (.video 0 offset) = 0 := by
  simp only [← bareTransfer_byte offset, byte, h.vram]

theorem blank_lasts {events : List Event} (hdisplay : b.Displays)
    (hkeep : ∀ e ∈ events, e.keepsOn) (hin : b.ppu.mode = .hblank)
    (hleft : cyclesOf events ≤ b.ppu.blankLeft) :
    (b.performAll events).ppu.mode = .hblank ∧
      (b.performAll events).ppu.hblankCount = b.ppu.hblankCount := by
  induction events generalizing b with
  | nil => exact ⟨hin, rfl⟩
  | cons e rest ih =>
    obtain ⟨hkeep, hkeep'⟩ := List.forall_mem_cons.mp hkeep
    have hdisplay' := hdisplay.perform hkeep
    cases hcycle : e.isCycle with
    | true =>
      obtain rfl := e.eq_cycle hcycle
      rw [cyclesOf_cycle] at hleft
      cases hdisplay.blankStep with
      | leave hover | enter hover => omega
      | stay hmore hmode hcount =>
        have hleft' : cyclesOf rest ≤ b.cycle.ppu.blankLeft := by omega
        obtain ⟨hlast, hsame⟩ := ih hdisplay' hkeep' hmode hleft'
        exact ⟨hlast, hsame.trans hcount⟩
    | false =>
      obtain ⟨hprogress, hdot⟩ := perform_still hdisplay.on hkeep hcycle
      rw [cyclesOf_other hcycle, ← blankLeft_congr hprogress hdot] at hleft
      have hmode : (b.perform e).ppu.mode = b.ppu.mode := congrArg Progress.mode hprogress
      have hcount : (b.perform e).ppu.hblankCount = b.ppu.hblankCount :=
        congrArg Progress.hblankCount hprogress
      obtain ⟨hlast, hsame⟩ := ih hdisplay' hkeep' (hmode.trans hin) hleft
      exact ⟨hlast, hsame.trans hcount⟩

theorem entry_lasts {after : List Event} (hdisplay : b.Displays) (hout : b.ppu.mode ≠ .hblank)
    (hin : b.cycle.ppu.mode = .hblank) (hkeep : ∀ e ∈ after, e.keepsOn)
    (hfew : cyclesOf after ≤ 85) :
    (b.cycle.performAll after).ppu.hblankCount = b.cycle.ppu.hblankCount := by
  have hlong : 85 ≤ b.cycle.ppu.blankLeft := by
    cases hdisplay.blankStep with
    | stay hleft =>
      rw [blankLeft_of_mode hout] at hleft
      omega
    | leave _ hmode => exact absurd hin hmode
    | enter _ _ _ hlong => exact hlong
  have hdisplay' : b.cycle.Displays := hdisplay.perform (e := .cycle) rfl
  exact (blank_lasts hdisplay' hkeep hin (Nat.le_trans hfew hlong)).2

theorem AtFirstBlank.block {b : Bus VolatileRam} (h : AtFirstBlank b) {after : List Event}
    (hkeep : ∀ e ∈ after, e.keepsOn) (hcontrol : ∀ e ∈ after, e.controlsTransfer = false)
    (hfew : cyclesOf after ≤ 85)
    (hend : ∀ c ∈ b.copiesOver (.cycle :: after), c.destination < 0x9FFF) :
    (b.copiesOver (.cycle :: after)).length = min blockLength (cyclesOf after + 1) ∧
      InBlock 1 (b.cycle.performAll after).ppu (b.cycle.performAll after).dma.vram
        (min blockLength (cyclesOf after + 1)) := by
  rw [← cyclesOf_cycle]
  exact block_of_entry h.reachable h.transfer h.displays.on h.outside h.inside hkeep hcontrol
    (entry_lasts h.displays h.outside h.inside hkeep hfew) hend

/-- A transfer by blanks leaves video memory alone but in a blank. Of each blank that is entered with
the transfer under way it copies one block, a byte on each of its first cycles, to consecutive
addresses unless these are set in between, and its register goes down by one. The course runs from
the cycle that enters the blank to any moment before the next one is entered. -/
theorem every_blank_copies_block (hreach : b.Reachable) (hcolor : b.model.isColor)
    (h : b.dma.vram = some (.hblank blocks line copied)) :
    (b.copies ≠ [] → b.ppu.lcdEnabled ∧ b.cycle.ppu.mode = .hblank) ∧
    (¬(b.ppu.lcdEnabled ∧ b.cycle.ppu.mode = .hblank) → b.cycle.ppu.vram = b.ppu.vram) ∧
    (b.ppu.lcdEnabled → b.ppu.mode ≠ .hblank → b.cycle.ppu.mode = .hblank →
      ∀ after : List Event, (∀ e ∈ after, e.keepsOn) → (∀ e ∈ after, e.controlsTransfer = false) →
      let course := .cycle :: after
      let last := b.performAll course
      last.ppu.hblankCount = b.cycle.ppu.hblankCount →
      (∀ c ∈ b.copiesOver course, c.destination < 0x9FFF) →
      (b.copiesOver course).length = min blockLength (cyclesOf course) ∧
      (last.ppu.mode ≠ .hblank → blockLength ≤ cyclesOf course) ∧
      (blockLength ≤ cyclesOf course →
        (last.read 0xFF55).1 = if blocks = 1 then 0xFF else (b.read 0xFF55).1 - 1) ∧
      (∀ front rest, course = front ++ .cycle :: rest →
        let now := b.performAll front
        (cyclesOf front < blockLength → now.CopiesByte) ∧
        (blockLength ≤ cyclesOf front → now.cycle.ppu.vram = now.ppu.vram)) ∧
      ∀ pre, pre <+: course → (∀ e ∈ pre, e.sets .destination = false) →
        (b.copiesOver pre).map VramCopy.destination =
          addressesFrom b.dma.destination (b.copiesOver pre).length ∧
        ((∀ e ∈ pre, e.sets .source = false) → (∀ e ∈ pre, e.sparesVideo) →
          ∀ bank : Fin 2, b.ppu.vramBank = bank →
            b.Filled pre bank (min blockLength (cyclesOf pre)))) := by
  refine ⟨blank_of_copies h, cycle_vram_of_outside h, fun hon hout hin after hkeep hcontrol => ?_⟩
  intro course last hsame hend
  obtain ⟨hpos, hle, -, -⟩ := hreach.sound.transfer _ h
  obtain ⟨hlength, hlast⟩ := block_of_entry hreach h hon hout hin hkeep hcontrol hsame hend
  refine ⟨hlength, fun hover => ?_, fun hfull => ?_, fun front rest hsplit =>
    cycle_of_entry hreach h hon hout hin hkeep hcontrol hsame hend hsplit, fun pre hpre hsets => ?_⟩
  · have hroom : blockLength ≤ min blockLength (cyclesOf course) + last.ppu.blankLeft := hlast.room
    rw [blankLeft_of_mode hover] at hroom
    omega
  · rw [Nat.min_eq_left hfull] at hlast
    have hcolor' : last.model.isColor := by rw [b.performAll_model]; exact hcolor
    rw [read_control hcolor, read_control hcolor']
    exact hlast.readControl hpos hle (readControl_of_blocks h hle)
  · have hlengthPre :=
      copiesOver_length_of_entry hreach h hon hout hin hkeep hcontrol hsame hend hpre
    obtain ⟨tail, htail⟩ := hpre
    have hquiet : ∀ e ∈ pre, e.controlsTransfer = false := by
      intro e he
      have hmem : e ∈ course := htail ▸ List.mem_append_left tail he
      rcases List.mem_cons.mp hmem with rfl | hmem
      · rfl
      · exact hcontrol e hmem
    have hendPre : ∀ c ∈ b.copiesOver pre, c.destination < 0x9FFF := by
      refine fun c hc => hend c ?_
      rw [← htail, copiesOver_append]
      exact List.mem_append_left _ hc
    refine ⟨(copiesOver_place .destination (waits_of_hblank h) hquiet hsets hendPre).1,
      fun hsource hspares bank hbank => ?_⟩
    rw [← hlengthPre]
    refine filled_of_waiting (waits_of_hblank h) hquiet (fun place => ?_) hspares hendPre ?_ hbank
    · cases place with
      | source => exact hsource
      | destination => exact hsets
    · rw [hlengthPre]
      exact Nat.le_trans (Nat.min_le_left _ _) (by decide)

theorem first_blank_copies_block : ∃ b : Bus VolatileRam,
    let after := List.replicate 20 .cycle
    let last := b.performAll (.cycle :: after)
    b.Reachable ∧ b.model.isColor ∧ b.dma.vram = some (.hblank 1 none 0) ∧ b.ppu.lcdEnabled ∧
      b.ppu.mode ≠ .hblank ∧ b.cycle.ppu.mode = .hblank ∧
      last.ppu.hblankCount = b.cycle.ppu.hblankCount ∧
      (∀ c ∈ b.copiesOver (.cycle :: after), c.destination < 0x9FFF) ∧
      (b.copiesOver (.cycle :: after)).map VramCopy.destination = addressesFrom 0x8000 16 ∧
      (last.read 0xFF55).1 = 0xFF ∧ (∀ offset, b.byte (.video 0 offset) = 0) ∧
      ∀ offset : Fin 0x2000, last.byte (.video 0 offset) = if offset.val < 16 then 0xFF else 0 := by
  obtain ⟨b, h⟩ := exists_atFirstBlank
  refine ⟨b, ?_⟩
  intro after last
  have hcycles : cyclesOf after = 20 := cyclesOf_replicate 20
  have hafter : ∀ e ∈ after, e = .cycle := fun _ => List.eq_of_mem_replicate
  clear_value after
  have hkeep : ∀ e ∈ after, e.keepsOn := fun e he => hafter e he ▸ rfl
  have hcontrol : ∀ e ∈ after, e.controlsTransfer = false := fun e he => hafter e he ▸ rfl
  have hsame : last.ppu.hblankCount = b.cycle.ppu.hblankCount :=
    entry_lasts h.displays h.outside h.inside hkeep (by omega)
  have hquiet : ∀ e ∈ Event.cycle :: after, e = .cycle := by simpa using hafter
  have hsets : ∀ e ∈ Event.cycle :: after, e.sets .destination = false :=
    fun e he => hquiet e he ▸ rfl
  have hroom : 0 + cyclesOf (.cycle :: after) < 0x1FFF := by rw [cyclesOf_cycle, hcycles]; omega
  have hend := h.copiesBare.short hquiet hroom
  obtain ⟨hlength, -, hread, -, hplaces⟩ :=
    (every_blank_copies_block h.reachable h.color h.transfer).2.2 h.displays.on h.outside h.inside
      after hkeep hcontrol hsame hend
  obtain ⟨hplaces, hfilled⟩ := hplaces _ List.prefix_rfl hsets
  have hfilled := hfilled (fun e he => hquiet e he ▸ rfl) (fun e he => hquiet e he ▸ rfl) 0
    h.copiesBare.bank
  rw [cyclesOf_cycle, hcycles] at hlength hread hfilled
  refine ⟨h.reachable, h.color, h.transfer, h.displays.on, h.outside, h.inside, hsame, hend, ?_,
    (hread (by decide)).trans (if_pos rfl), h.byte_zero,
    fun offset => ?_⟩
  · rw [hplaces, hlength, h.destination]
    rfl
  · have hbyte := h.copiesBare.byte hquiet (by decide) (by decide) hfilled offset
    rw [h.byte_zero] at hbyte
    refine hbyte.trans (ite_congr (propext ?_) (fun _ => rfl) fun _ => rfl)
    simp only [blockLength]
    omega

theorem CopiesBare.redirected {b : Bus VolatileRam} (h : CopiesBare b 0 0) (hcolor : b.model.isColor)
    {half : List Event} (hhalf : ∀ e ∈ half, e = .cycle) (hfew : cyclesOf half = 8)
    (hlength : (b.copiesOver half).length = 8) :
    let written := (b.performAll half).perform (.write 0xFF54 0x40)
    CopiesBare written 8 0x40 ∧
      (b.copiesOver half).map VramCopy.destination = addressesFrom 0x8000 8 ∧
      ∀ offset : Fin 0x2000, written.byte (.video 0 offset) =
        if offset.val < 8 then 0xFF else b.byte (.video 0 offset) := by
  intro written
  have hroom : 0 + cyclesOf half < 0x1FFF := by omega
  obtain ⟨hplaces, hmiddle⟩ := h.cycles hhalf hroom hlength
  have hcolor' : (b.performAll half).model.isColor := by
    rw [performAll_model]
    exact hcolor
  obtain ⟨hwritten, hspared⟩ := hmiddle.moved hcolor' (by rw [hmiddle.destination]; decide)
  refine ⟨hwritten, by rw [hplaces, h.destination]; rfl, fun offset => ?_⟩
  have hbyte := h.byte hhalf (by decide) (by decide)
    (h.filled hhalf hroom hlength (by decide)) offset
  calc written.byte (.video 0 offset)
      = (b.performAll half).byte (.video 0 offset) := by simp only [written, Bus.byte, hspared]
    _ = if offset.val < 8 then 0xFF else b.byte (.video 0 offset) :=
        hbyte.trans (ite_congr (propext (by omega)) (fun _ => rfl) fun _ => rfl)

theorem AtFirstBlank.copies_apart {b : Bus VolatileRam} (h : AtFirstBlank b) {tail : List Event}
    (htail : ∀ e ∈ tail, e = .cycle) (hfew : cyclesOf tail = 7) :
    let course := .cycle :: (tail ++ .write 0xFF54 0x40 :: .cycle :: tail)
    (∀ e ∈ course, e.keepsOn ∧ e.controlsTransfer = false) ∧
      (b.performAll course).ppu.hblankCount = b.cycle.ppu.hblankCount ∧
      (∀ c ∈ b.copiesOver course, c.destination < 0x9FFF) ∧
      (b.copiesOver course).map VramCopy.destination =
        addressesFrom 0x8000 8 ++ addressesFrom 0x8040 8 ∧
      ∀ offset : Fin 0x2000, (b.performAll course).byte (.video 0 offset) =
        if offset.val < 8 ∨ 0x40 ≤ offset.val ∧ offset.val < 0x48 then 0xFF else 0 := by
  intro course
  have hsplit : course = (.cycle :: tail) ++ .write 0xFF54 0x40 :: .cycle :: tail := rfl
  have hhalf : ∀ e ∈ Event.cycle :: tail, e = .cycle := by simpa using htail
  have hcount : cyclesOf (Event.cycle :: tail) = 8 := by rw [cyclesOf_cycle, hfew]
  have hendFirst := h.copiesBare.short hhalf (by omega)
  have hlength : (b.copiesOver (.cycle :: tail)).length = 8 := by
    rw [(h.block (fun e he => htail e he ▸ rfl) (fun e he => htail e he ▸ rfl) (by omega)
      hendFirst).1, hfew]
    rfl
  obtain ⟨hsecond, hplaces, hbytes⟩ := h.copiesBare.redirected h.color hhalf hcount hlength
  have hcopies : b.copiesOver course = b.copiesOver (.cycle :: tail) ++
      ((b.performAll (.cycle :: tail)).perform (.write 0xFF54 0x40)).copiesOver
        (.cycle :: tail) := by
    rw [hsplit, copiesOver_append, copiesOver_other (e := .write 0xFF54 0x40) rfl]
  have hlast : b.performAll course =
      ((b.performAll (.cycle :: tail)).perform (.write 0xFF54 0x40)).performAll
        (.cycle :: tail) := by
    rw [hsplit, performAll_append, performAll_cons]
  generalize (b.performAll (.cycle :: tail)).perform (.write 0xFF54 0x40) = written
    at hsecond hbytes hcopies hlast
  have hendSecond := hsecond.short hhalf (by omega)
  have hend : ∀ c ∈ b.copiesOver course, c.destination < 0x9FFF := by
    rw [hcopies]
    intro c hc
    exact (List.mem_append.mp hc).elim (hendFirst c) (hendSecond c)
  have hquiet : ∀ e ∈ tail ++ .write 0xFF54 0x40 :: .cycle :: tail,
      e.keepsOn ∧ e.controlsTransfer = false := by
    intro e he
    rcases List.mem_append.mp he with he | he
    · exact htail e he ▸ ⟨rfl, rfl⟩
    · rcases List.mem_cons.mp he with rfl | he
      · exact ⟨rfl, rfl⟩
      · exact hhalf e he ▸ ⟨rfl, rfl⟩
  have hcycles : cyclesOf (tail ++ .write 0xFF54 0x40 :: .cycle :: tail) = 15 := by
    rw [cyclesOf_append, cyclesOf_other rfl, cyclesOf_cycle, hfew]
  -- the second half copies what the first has left of the block
  have hrest : (written.copiesOver (.cycle :: tail)).length = 8 := by
    have hall := (h.block (fun e he => (hquiet e he).1) (fun e he => (hquiet e he).2) (by omega)
      hend).1
    rw [hcycles] at hall
    replace hall : (b.copiesOver course).length = 16 := hall
    rw [hcopies, List.length_append, hlength] at hall
    omega
  have hplacesSecond := (hsecond.cycles hhalf (by omega) hrest).1
  have hbytesSecond := hsecond.byte hhalf (by decide) (by decide)
    (hsecond.filled hhalf (by omega) hrest (by decide))
  refine ⟨List.forall_mem_cons.mpr ⟨⟨rfl, rfl⟩, hquiet⟩, ?_, hend, ?_, fun offset => ?_⟩
  · exact entry_lasts h.displays h.outside h.inside (fun e he => (hquiet e he).1) (by omega)
  · rw [hcopies, List.map_append, hplaces, hplacesSecond, hsecond.destination]
    rfl
  · rw [hlast, hbytesSecond, hbytes, h.byte_zero]
    grind

theorem halves_apart (a : UInt16) :
    addressesFrom 0x8000 8 ++ addressesFrom 0x8040 8 ≠ addressesFrom a 16 := by
  intro h
  have hfirst : some 0x8000 = some (a + UInt16.ofNat 0) := congrArg (fun l => l[0]?) h
  have hninth : some 0x8040 = some (a + UInt16.ofNat 8) := congrArg (fun l => l[8]?) h
  obtain rfl : 0x8000 = a := by simpa using hfirst
  cases hninth

/-- The copies of a blank need not go to consecutive addresses. -/
theorem first_blank_copies_apart : ∃ b : Bus VolatileRam,
    let half := List.replicate 7 .cycle
    let course := .cycle :: (half ++ .write 0xFF54 0x40 :: .cycle :: half)
    let last := b.performAll course
    b.Reachable ∧ b.model.isColor ∧ b.dma.vram = some (.hblank 1 none 0) ∧ b.ppu.lcdEnabled ∧
      b.ppu.mode ≠ .hblank ∧ b.cycle.ppu.mode = .hblank ∧
      (∀ e ∈ course, e.keepsOn) ∧ (∀ e ∈ course, e.controlsTransfer = false) ∧
      last.ppu.hblankCount = b.cycle.ppu.hblankCount ∧
      (∀ c ∈ b.copiesOver course, c.destination < 0x9FFF) ∧
      (b.copiesOver course).length = 16 ∧
      (∀ a, (b.copiesOver course).map VramCopy.destination ≠ addressesFrom a 16) ∧
      (∀ offset, b.byte (.video 0 offset) = 0) ∧
      ∀ offset : Fin 0x2000, last.byte (.video 0 offset) =
        if offset.val < 8 ∨ 0x40 ≤ offset.val ∧ offset.val < 0x48 then 0xFF else 0 := by
  obtain ⟨b, h⟩ := exists_atFirstBlank
  refine ⟨b, ?_⟩
  intro half course last
  have hhalf : ∀ e ∈ half, e = .cycle := fun _ => List.eq_of_mem_replicate
  have hfew : cyclesOf half = 7 := cyclesOf_replicate 7
  clear_value half
  obtain ⟨hquiet, hsame, hend, hplaces, hbytes⟩ := h.copies_apart hhalf hfew
  exact ⟨h.reachable, h.color, h.transfer, h.displays.on, h.outside, h.inside,
    fun e he => (hquiet e he).1, fun e he => (hquiet e he).2, hsame, hend,
    by simpa [addressesFrom] using congrArg List.length hplaces,
    fun a ha => halves_apart a (hplaces.symm.trans ha), h.byte_zero, hbytes⟩

end Handheld.Bus
