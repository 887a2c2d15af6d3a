import Handheld.Proofs.Bus.PageTransfer
import Handheld.Proofs.Dma.Places

/-!
The copy of blocks to video memory all at once. Its places are what their registers were last set
to, in whatever order, less the bits that the hardware does not keep; one cycle copies everything up
to the end of video memory, and then the bus is held for as long as the blocks take.
-/

namespace Handheld

namespace Bus

def Event.written (address : UInt16) : Event → Option UInt8
  | .write a v => if a = address then some v else none
  | _ => none

def lastWritten (address : UInt16) (events : List Event) : Option UInt8 :=
  (events.filterMap (Event.written address)).getLast?

theorem lastWritten_cons (address : UInt16) (e : Event) (rest : List Event) (v : UInt8) :
    (lastWritten address (e :: rest)).getD v =
      (lastWritten address rest).getD ((e.written address).getD v) := by
  cases hwritten : e.written address with
  | none => simp [lastWritten, hwritten]
  | some w =>
    cases hrest : rest.filterMap (Event.written address) with
    | nil => simp [lastWritten, hwritten, hrest]
    | cons w' ws => simp [lastWritten, hwritten, hrest, List.getLast?_cons]

theorem any_sets_of_lastWritten {events : List Event} {place : CopyEnd} {v : UInt8}
    (h : lastWritten place.high events = some v) : events.any (Event.sets place) = true := by
  obtain ⟨e, he, hwritten⟩ := List.mem_filterMap.mp (List.mem_of_getLast? h)
  refine List.any_eq_true.mpr ⟨e, he, ?_⟩
  cases e with
  | write address w =>
    by_cases haddress : address = place.high
    · simp [Event.sets, place.registers_eq, haddress]
    · simp [Event.written, haddress] at hwritten
  | _ => cases hwritten

variable {σ : Type} [ExternalMemory σ] {b : Bus σ}

/-- The word that the registers of a place were set to, and that the place comes from it if one of
them was. -/
structure Placed (place : CopyEnd) (high low : UInt8) (set : Bool) (d : Dma) : Prop where
  confined : place.confine (d.place place) = place.confine (word high low)
  exact : set → d.place place = place.confine (word high low)

theorem placed_any (place : CopyEnd) (d : Dma) :
    Placed place (highByte (d.place place)) (lowByte (d.place place)) false d :=
  ⟨by rw [word_highByte_lowByte], nofun⟩

theorem perform_unset {e : Event} {place : CopyEnd} (hstill : b.dma.vram = none ∨ e.isCycle = false)
    (hunset : e.sets place = false) : (b.perform e).dma.place place = b.dma.place place := by
  cases hcycle : e.isCycle with
  | true =>
    obtain rfl := e.eq_cycle hcycle
    rcases hstill with hidle | hother
    · rw [perform, cycle_dma_of_idle hidle]
      cases place <;> rfl
    · cases hother
  | false => exact (perform_dma hcycle).2 place hunset

theorem perform_still_vram {e : Event} (hcontrol : e.controlsTransfer = false)
    (hstill : b.dma.vram = none ∨ e.isCycle = false) : (b.perform e).dma.vram = b.dma.vram := by
  cases hcycle : e.isCycle with
  | true =>
    obtain rfl := e.eq_cycle hcycle
    rcases hstill with hidle | hother
    · rw [perform, cycle_dma_of_idle hidle]
    · cases hother
  | false => exact (perform_dma hcycle).1 hcontrol

theorem place_register {model : Model} (hcolor : model.isColor) {place : CopyEnd} {address : UInt16}
    (h : address = place.high ∨ address = place.low) :
    Region.ofAddress address = .io ∧ IoTarget.ofAddress model address = .vramDma := by
  cases place <;> rcases h with rfl | rfl <;>
    exact ⟨by decide, by simp [IoTarget.ofAddress, hcolor, CopyEnd.high, CopyEnd.low]⟩

theorem Placed.perform {e : Event} {place : CopyEnd} {high low : UInt8} {set : Bool}
    (hcolor : b.model.isColor) (hstill : b.dma.vram = none ∨ e.isCycle = false)
    (h : Placed place high low set b.dma) :
    Placed place ((e.written place.high).getD high) ((e.written place.low).getD low)
      (set || e.sets place) (b.perform e).dma := by
  cases hsets : e.sets place with
  | false =>
    have hsame := perform_unset hstill hsets
    have hwritten : e.written place.high = none ∧ e.written place.low = none := by
      cases e with
      | write address v =>
        simp only [Event.sets, place.registers_eq, List.contains_cons, List.contains_nil,
          Bool.or_eq_false_iff, beq_eq_false_iff_ne] at hsets
        simp [Event.written, hsets.1, hsets.2.1]
      | _ => exact ⟨rfl, rfl⟩
    rw [hwritten.1, hwritten.2, Bool.or_false]
    exact ⟨hsame ▸ h.confined, fun hset => hsame.trans (h.exact hset)⟩
  | true =>
    suffices hplace : (b.perform e).dma.place place = place.confine
        (word ((e.written place.high).getD high) ((e.written place.low).getD low)) from
      ⟨by rw [hplace, Dma.confine_confine], fun _ => hplace⟩
    cases e with
    | write address v =>
      have haddress : address = place.high ∨ address = place.low := by
        simpa [Event.sets, place.registers_eq] using hsets
      obtain ⟨hregion, htarget⟩ := place_register hcolor haddress
      rw [Bus.perform, write_transfer_register v hregion htarget]
      rcases haddress with rfl | rfl
      · have hlow : place.high ≠ place.low := by cases place <;> decide
        simp only [Event.written, if_true, if_neg hlow, Option.getD]
        exact Dma.write_high h.confined v
      · have hhigh : place.low ≠ place.high := by cases place <;> decide
        simp only [Event.written, if_true, if_neg hhigh, Option.getD]
        exact Dma.write_low h.confined v
    | _ => cases hsets

theorem Placed.performAll {events : List Event} {place : CopyEnd} {high low : UInt8} {set : Bool}
    (hcolor : b.model.isColor) (hcontrol : ∀ e ∈ events, e.controlsTransfer = false)
    (hstill : b.dma.vram = none ∨ cyclesOf events = 0) (h : Placed place high low set b.dma) :
    Placed place ((lastWritten place.high events).getD high)
      ((lastWritten place.low events).getD low) (set || events.any (Event.sets place))
      (b.performAll events).dma := by
  induction events generalizing b high low set with
  | nil => simpa [lastWritten] using h
  | cons e rest ih =>
    obtain ⟨hfirst, hrest⟩ := List.forall_mem_cons.mp hcontrol
    -- A cycle leaves the places as they are only where no transfer moves them.
    have hcycles : b.dma.vram = none ∨ e.isCycle = false ∧ cyclesOf rest = 0 :=
      hstill.imp_right fun hnone => by
        cases hcycle : e.isCycle with
        | true => simp [e.eq_cycle hcycle] at hnone
        | false => exact ⟨rfl, (cyclesOf_other hcycle rest).symm.trans hnone⟩
    have hstill' := hcycles.imp_right And.left
    have hrest_still : (b.perform e).dma.vram = none ∨ cyclesOf rest = 0 := by
      rw [perform_still_vram hfirst hstill']
      exact hcycles.imp_right And.right
    have hmodel : (b.perform e).model.isColor := by
      rw [show (b.perform e).model = b.model from b.performAll_model [e]]
      exact hcolor
    have hlast := ih hmodel hrest hrest_still (h.perform hcolor hstill')
    rwa [← lastWritten_cons, ← lastWritten_cons, Bool.or_assoc, ← List.any_cons] at hlast

theorem performAll_still_vram {events : List Event}
    (hcontrol : ∀ e ∈ events, e.controlsTransfer = false)
    (hstill : b.dma.vram = none ∨ cyclesOf events = 0) :
    (b.performAll events).dma.vram = b.dma.vram := by
  refine performAll_invariant (I := fun b' => b'.dma.vram = b.dma.vram) rfl fun b' e he hsame => ?_
  refine (perform_still_vram (hcontrol e he) ?_).trans hsame
  rcases hstill with hidle | hcycles
  · exact .inl (hsame.trans hidle)
  · exact .inr (Bool.eq_false_iff.mpr (List.countP_eq_zero.mp hcycles e he))

theorem performAll_place {events : List Event} {high low : UInt8} (place : CopyEnd)
    (hcolor : b.model.isColor) (hcontrol : ∀ e ∈ events, e.controlsTransfer = false)
    (hstill : b.dma.vram = none ∨ cyclesOf events = 0)
    (hhigh : lastWritten place.high events = some high)
    (hlow : lastWritten place.low events = some low) :
    (b.performAll events).dma.place place = place.confine (word high low) := by
  have hplaced := (placed_any place b.dma).performAll hcolor hcontrol hstill
  rw [hhigh, hlow, any_sets_of_lastWritten hhigh] at hplaced
  exact hplaced.exact rfl

theorem write_general {v : UInt8} (hcolor : b.model.isColor)
    (h : ∀ blocks line copied, b.dma.vram ≠ some (.hblank blocks line copied)) (hv : v.toNat < 128) :
    b.write 0xFF55 v = { b with dma := { b.dma with vram := some (.general (v.toNat + 1)) } } := by
  rw [← Dma.writeControl_general h hv]
  exact write_transfer_register v (by decide) (by simp [IoTarget.ofAddress, hcolor])

theorem vram_of_dmaAddress {a : UInt16} (h : Region.ofAddress (dmaAddress a) = .vram) :
    Region.ofAddress a = .vram := by
  by_cases hecho : 0xE000 ≤ a
  · have hle : 0xE000 ≤ a.toNat := UInt16.le_iff_toNat_le.mp hecho
    have hplace := Region.holds_ofAddress (dmaAddress a)
    rw [h, Region.Holds, dmaAddress_toNat, if_pos hle] at hplace
    omega
  · rwa [dmaAddress, if_neg hecho] at h

theorem perform_copy_byte {bank : Fin 2} {c : VramCopy} (hbank : b.ppu.vramBank = bank)
    (hplace : 0x8000 ≤ c.destination.toNat ∧ c.destination.toNat < 0xA000) (bank' : Fin 2)
    (offset : Fin 0x2000) : (c.perform b).byte (.video bank' offset) =
      if bank' = bank ∧ c.destination.toNat = 0x8000 + offset then b.peek (dmaAddress c.source)
      else b.byte (.video bank' offset) := by
  simp only [VramCopy.perform, DmaBus.writeVram, DmaBus.readByte, byte, Ppu.writeVram,
    Ppu.vramOffset, Vram.byte, Memory.read_write, hbank, vramBankSize, Fin.ext_iff]
  exact ite_congr (propext (by omega)) (fun _ => rfl) fun _ => rfl

/-- Where a stretch of copies lies there is what was to be seen at its source, and everywhere else
video memory is as it was. -/
theorem performAll_stretch_byte {n : Nat} {source destination : UInt16} {bank : Fin 2}
    (hbank : b.ppu.vramBank = bank)
    (hplace : 0x8000 ≤ destination.toNat ∧ destination.toNat < 0xA000)
    (hsource : ∀ i < min n (0xA000 - destination.toNat),
      Region.ofAddress (dmaAddress (source + UInt16.ofNat i)) ≠ .vram)
    (bank' : Fin 2) (offset : Fin 0x2000) :
    (VramCopy.performAll (VramCopy.stretch n source destination) b).byte (.video bank' offset) =
      if bank' = bank ∧ destination.toNat ≤ 0x8000 + offset ∧
        0x8000 + offset < destination.toNat + n then
        b.peek (dmaAddress (source + UInt16.ofNat (0x8000 + offset - destination.toNat)))
      else b.byte (.video bank' offset) := by
  induction n generalizing b source destination with
  | zero =>
    rw [if_neg (by omega)]
    rfl
  | succ n ih =>
    let copied := (⟨source, destination⟩ : VramCopy).perform b
    have hmemory : b.SameMemory copied := ⟨rfl, rfl, rfl, rfl⟩
    have hfirst : copied.byte (.video bank' offset) =
        if bank' = bank ∧ destination.toNat = 0x8000 + offset then b.peek (dmaAddress source)
        else b.byte (.video bank' offset) := perform_copy_byte hbank hplace bank' offset
    have hstart (h : destination.toNat = 0x8000 + offset) :
        source + UInt16.ofNat (0x8000 + offset - destination.toNat) = source := by
      rw [h, Nat.sub_self]
      exact UInt16.add_zero source
    have hoffset := offset.isLt
    -- A stretch is cut off at the last byte of video memory; short of it one copy is followed by a
    -- stretch that is shorter by one.
    by_cases hend : 0x9FFF ≤ destination
    · have hlast : 0x9FFF ≤ destination.toNat := UInt16.le_iff_toNat_le.mp hend
      have hone : VramCopy.stretch (n + 1) source destination = [⟨source, destination⟩] := by
        rw [VramCopy.stretch, if_pos hend]
      rw [hone]
      refine hfirst.trans (ite_congr (propext ?_) (fun hhere => ?_) fun _ => rfl)
      · exact and_congr_right' (by omega)
      · rw [hstart (by omega)]
    · have hroom : destination.toNat < 0x9FFF :=
        Nat.lt_of_not_le fun h => hend (UInt16.le_iff_toNat_le.mpr h)
      have hsplit : VramCopy.stretch (n + 1) source destination =
          ⟨source, destination⟩ :: VramCopy.stretch n (source + 1) (destination + 1) := by
        rw [VramCopy.stretch, if_neg hend]
      have hnext : (destination + 1).toNat = destination.toNat + 1 := by
        rw [UInt16.toNat_add]
        exact Nat.mod_eq_of_lt (by simp; omega)
      have hshift (i : Nat) : source + 1 + UInt16.ofNat i = source + UInt16.ofNat (i + 1) := by
        rw [UInt16.add_assoc, UInt16.add_comm 1, UInt16.ofNat_add]
        rfl
      have hbank' : copied.ppu.vramBank = bank := hbank
      have hplace' : 0x8000 ≤ (destination + 1).toNat ∧ (destination + 1).toNat < 0xA000 := by omega
      have hsource' : ∀ i < min n (0xA000 - (destination + 1).toNat),
          Region.ofAddress (dmaAddress (source + 1 + UInt16.ofNat i)) ≠ .vram := fun i hi => by
        rw [hshift]
        exact hsource (i + 1) (by omega)
      have hrest := ih hbank' hplace' hsource'
      rw [hsplit]
      refine hrest.trans ?_
      rw [hfirst, hnext]
      by_cases hhere : bank' = bank ∧ destination.toNat = 0x8000 + offset
      · rw [if_neg (by omega), if_pos hhere, if_pos (by omega), hstart hhere.2]
      · rw [if_neg hhere]
        refine ite_congr (propext (by omega)) (fun hthere => ?_) fun _ => rfl
        -- No copy reads video memory, so the later ones do not see the first.
        have hindex : 0x8000 + offset.val - destination.toNat =
            0x8000 + offset.val - (destination.toNat + 1) + 1 := by omega
        rw [hshift, ← hindex]
        rcases dmaAddress_region (source + UInt16.ofNat (0x8000 + offset - destination.toNat)) with
          hregion | hregion
        · exact absurd hregion (hsource _ (by omega))
        · exact hmemory.peek hregion

theorem cycle_video_byte (b : Bus σ) : ∃ moved : Bus σ,
    (moved.ppu.vram = b.ppu.vram ∧ moved.ppu.vramBank = b.ppu.vramBank ∧
      ∀ a, moved.peek (dmaAddress a) = b.peek (dmaAddress a)) ∧
    ∀ bank offset, b.cycle.byte (.video bank offset) =
      (VramCopy.performAll b.copies moved).byte (.video bank offset) := by
  obtain ⟨oam, hoam⟩ := stepOam_bus b.dma b.stepPpu.stepTimer
  have hcontents : b.stepPpu.stepTimer.ppu.contents = b.ppu.contents := b.ppu.step_contents
  have hvram : b.stepPpu.stepTimer.ppu.vram = b.ppu.vram := congrArg Ppu.Contents.vram hcontents
  have hbank : b.stepPpu.stepTimer.ppu.vramBank = b.ppu.vramBank :=
    congrArg Ppu.Contents.vramBank hcontents
  let moved : Bus σ := { b.stepPpu.stepTimer with ppu := { b.stepPpu.stepTimer.ppu with oam } }
  have hmemory : b.SameMemory moved := ⟨rfl, rfl, rfl, rfl⟩
  refine ⟨moved, ⟨hvram, hbank, hmemory.peek_source hvram hbank⟩, fun bank offset => ?_⟩
  simp only [byte, cycle_vram, hoam]
  rfl

theorem cycle_general_byte {blocks : Nat} {bank : Fin 2}
    (h : b.dma.vram = some (.general blocks)) (hbank : b.ppu.vramBank = bank)
    (hplace : 0x8000 ≤ b.dma.destination.toNat ∧ b.dma.destination.toNat < 0xA000)
    (hsource : ∀ i < min (blocks * Dma.blockLength) (0xA000 - b.dma.destination.toNat),
      Region.ofAddress (dmaAddress (b.dma.source + UInt16.ofNat i)) ≠ .vram)
    (bank' : Fin 2) (offset : Fin 0x2000) : b.cycle.byte (.video bank' offset) =
      if bank' = bank ∧ b.dma.destination.toNat ≤ 0x8000 + offset ∧
        0x8000 + offset < b.dma.destination.toNat + blocks * Dma.blockLength then
        b.peek (dmaAddress (b.dma.source +
          UInt16.ofNat (0x8000 + offset - b.dma.destination.toNat)))
      else b.byte (.video bank' offset) := by
  have hcopies : b.copies =
      VramCopy.stretch (blocks * Dma.blockLength) b.dma.source b.dma.destination := by
    simp [copies, Dma.copies, h]
  obtain ⟨moved, ⟨hvram, hmoved, hread⟩, hcycle⟩ := b.cycle_video_byte
  rw [hcycle, hcopies, performAll_stretch_byte (hmoved.trans hbank) hplace hsource, hread]
  simp only [byte, hvram]

theorem performAll_hold {events : List Event} (hidle : b.dma.vram = none)
    (hcontrol : ∀ e ∈ events, e.controlsTransfer = false) :
    (b.performAll events).dma.vram = none ∧
      (b.performAll events).dma.hold = b.dma.hold - cyclesOf events := by
  refine ⟨(performAll_still_vram hcontrol (.inl hidle)).trans hidle, ?_⟩
  induction events generalizing b with
  | nil => rfl
  | cons e rest ih =>
    obtain ⟨hfirst, hrest⟩ := List.forall_mem_cons.mp hcontrol
    have hnext := (perform_still_vram hfirst (.inl hidle)).trans hidle
    rw [performAll_cons, ih hnext hrest]
    rcases e.kind with rfl | ⟨address, v, rfl⟩ | ⟨hcycle, hwrite⟩
    · have hdma : (b.perform .cycle).dma.hold = b.dma.hold - 1 :=
        congrArg Dma.hold (cycle_dma_of_idle hidle)
      rw [hdma, cyclesOf_cycle]
      omega
    · have hdma : (b.perform (.write address v)).dma.hold = b.dma.hold := by
        rcases b.write_dma address v with hsame | hmade
        · exact congrArg Dma.hold hsame
        · exact (congrArg Dma.hold hmade).trans (b.dma.write_hold address v)
      rw [hdma, cyclesOf_other rfl]
    · rw [(perform_other hcycle hwrite).2, cyclesOf_other hcycle]

/-- The four registers set in any order, as often as one likes, while no transfer waits for the
blanks, and then a number of blocks: the next cycle copies to the selected bank of video memory as
much as was asked for, or as there is room for, and changes nothing else there. Until so many cycles
later the bus is held, and no transfer is reported. -/
theorem general_transfer_copies {programming : List Event} {high low high' low' v : UInt8}
    {bank : Fin 2} (hcolor : b.model.isColor)
    (hready : b.dma.vram = none ∨
      (∃ blocks, b.dma.vram = some (.general blocks)) ∧ cyclesOf programming = 0)
    (hcontrol : ∀ e ∈ programming, e.controlsTransfer = false)
    (hhigh : lastWritten 0xFF51 programming = some high)
    (hlow : lastWritten 0xFF52 programming = some low)
    (hhigh' : lastWritten 0xFF53 programming = some high')
    (hlow' : lastWritten 0xFF54 programming = some low')
    (hbank : (b.performAll programming).ppu.vramBank = bank) (hv : v.toNat < 128) :
    let source := word high low &&& 0xFFF0
    let destination := 0x8000 ||| (word high' low' &&& 0x1FF0)
    let length := min (16 * (v.toNat + 1)) (0xA000 - destination.toNat)
    let start := (b.performAll programming).write 0xFF55 v
    (∀ i < length, Region.ofAddress (source + UInt16.ofNat i) ≠ .vram) →
      start.dma.romBusy ∧
      (∀ (bank' : Fin 2) (offset : Fin 0x2000), start.cycle.byte (.video bank' offset) =
        if bank' = bank ∧ destination.toNat ≤ 0x8000 + offset ∧
          0x8000 + offset < destination.toNat + length then
          start.peek (dmaAddress (source + UInt16.ofNat (0x8000 + offset - destination.toNat)))
        else start.byte (.video bank' offset)) ∧
      ∀ events : List Event, (∀ e ∈ events, e.controlsTransfer = false) →
        let later := start.cycle.performAll events
        later.dma.romBusy = decide (cyclesOf events < 8 * (v.toNat + 1)) ∧
          (later.read 0xFF55).1 = 0xFF := by
  intro source destination length start houtside
  have hstill : b.dma.vram = none ∨ cyclesOf programming = 0 := hready.imp_right And.right
  have hprogrammed : (b.performAll programming).model.isColor := by
    rwa [performAll_model]
  have hnone (blocks : Nat) (line : Option Nat) (copied : Nat) :
      (b.performAll programming).dma.vram ≠ some (.hblank blocks line copied) := by
    rw [performAll_still_vram hcontrol hstill]
    rcases hready with hidle | ⟨⟨blocks', hgeneral⟩, -⟩
    · simp [hidle]
    · simp [hgeneral]
  have hstart := write_general hprogrammed hnone hv
  have hgeneral : start.dma.vram = some (.general (v.toNat + 1)) := congrArg (·.dma.vram) hstart
  have hsource : start.dma.source = source := (congrArg (·.dma.source) hstart).trans
    (performAll_place .source hcolor hcontrol hstill hhigh hlow)
  have hdestination : start.dma.destination = destination :=
    (congrArg (·.dma.destination) hstart).trans
      (performAll_place .destination hcolor hcontrol hstill hhigh' hlow')
  have hbank : start.ppu.vramBank = bank := (congrArg (·.ppu.vramBank) hstart).trans hbank
  have hcolor : start.model.isColor := by
    rw [show start.model = _ from write_model _ _ _]
    exact hprogrammed
  have hplace : 0x8000 ≤ destination.toNat ∧ destination.toNat < 0xA000 :=
    CopyEnd.confine_destination_toNat _
  clear_value start
  refine ⟨by simp [Dma.romBusy, hgeneral], fun bank' offset => ?_, fun events hevents => ?_⟩
  · have hcopied := cycle_general_byte hgeneral hbank (by rwa [hdestination]) (fun i hi hregion => by
      rw [hdestination, Nat.mul_comm] at hi
      rw [hsource] at hregion
      exact houtside i hi (vram_of_dmaAddress hregion)) bank' offset
    rw [hsource, hdestination] at hcopied
    rw [hcopied]
    have hoffset := offset.isLt
    refine ite_congr (propext ?_) (fun _ => rfl) fun _ => rfl
    refine and_congr_right' (and_congr_right' ?_)
    simp only [length, Dma.blockLength]
    omega
  · have hcycle : start.cycle.dma.vram = none ∧ start.cycle.dma.hold = (v.toNat + 1) * 8 := by
      rw [cycle_dma]
      exact Dma.step_of_general _ hgeneral
    obtain ⟨hidle, hhold⟩ := performAll_hold hcycle.1 hevents
    have hlater : (start.cycle.performAll events).model.isColor := by
      rwa [performAll_model, show start.cycle.model = start.model from start.performAll_model [.cycle]]
    refine ⟨?_, (read_control hlater).trans (Dma.readControl_of_idle hidle)⟩
    have hbusy : 0 < (v.toNat + 1) * 8 - cyclesOf events ↔ cyclesOf events < 8 * (v.toNat + 1) := by
      omega
    simp [Dma.romBusy, hidle, hhold, hcycle.2, hbusy]

theorem top_of_vram_copied :
    let programming : List Event := [.write 0xC01F 0x77, .write 0xFF54 0xFF, .write 0xFF51 0x12,
      .write 0xFF52 0x1A, .cycle, .write 0xFF53 0xFF, .write 0xFF51 0xC0]
    let start := (bare.performAll programming).write 0xFF55 0x7F
    let later (n : Nat) := start.cycle.performAll (List.replicate n .cycle)
    start.cycle.byte (.video 0 0x1FFF) = 0x77 ∧
      start.cycle.byte (.video 0 0x1FEF) = start.byte (.video 0 0x1FEF) ∧
      (later 1023).dma.romBusy ∧ (later 1024).dma.romBusy = false := by
  intro programming start later
  have hsource : ∀ i < 16, Region.ofAddress (0xC010 + UInt16.ofNat i) ≠ .vram := by decide
  have hcontrol : ∀ e ∈ programming, e.controlsTransfer = false := by
    simp [programming, Event.controlsTransfer]
  have hhigh : lastWritten 0xFF51 programming = some 0xC0 := rfl
  have hlow : lastWritten 0xFF52 programming = some 0x1A := rfl
  have hhigh' : lastWritten 0xFF53 programming = some 0xFF := rfl
  have hlow' : lastWritten 0xFF54 programming = some 0xFF := rfl
  have hbank : (bare.performAll programming).ppu.vramBank = (0 : Fin 2) := by decide +kernel
  have hv : (0x7F : UInt8).toNat < 128 := by decide
  obtain ⟨-, hcopied, hheld⟩ := general_transfer_copies (b := bare) rfl (.inl rfl) hcontrol hhigh hlow
    hhigh' hlow' hbank hv hsource
  have hbyte : start.peek 0xC01F = 0x77 := by decide +kernel
  have hcycles (n : Nat) : ∀ e ∈ List.replicate n Event.cycle, e.controlsTransfer = false := by
    intro e he
    rw [List.eq_of_mem_replicate he]
    rfl
  have hbusy (n : Nat) : (later n).dma.romBusy = decide (n < 1024) := by
    have hlater := (hheld _ (hcycles n)).1
    rwa [cyclesOf_replicate] at hlater
  refine ⟨(hcopied 0 0x1FFF).trans ?_, (hcopied 0 0x1FEF).trans ?_,
    (hbusy 1023).trans (by decide), (hbusy 1024).trans (by decide)⟩
  · rw [if_pos (by decide)]
    exact hbyte
  · rw [if_neg (by decide)]

end Bus
end Handheld
