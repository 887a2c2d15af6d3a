import Handheld.Dma

/-!
The bytes that transfers copy to video memory, one by one. A cycle acts on its bus through these
copies and the byte for sprite memory alone, and which they are depends on nothing but the transfer
and the number of the horizontal blank in progress.
-/

namespace Handheld

structure VramCopy where
  source : UInt16
  destination : UInt16
  deriving DecidableEq, Repr

inductive CopyEnd where
  | source
  | destination
  deriving DecidableEq, Repr

def CopyEnd.registers : CopyEnd → List UInt16
  | .source => [0xFF51, 0xFF52]
  | .destination => [0xFF53, 0xFF54]

namespace VramCopy
open DmaBus
variable {β : Type} [DmaBus β]

def place (c : VramCopy) : CopyEnd → UInt16
  | .source => c.source
  | .destination => c.destination

def perform (c : VramCopy) (bus : β) : β := writeVram bus c.destination (readByte bus c.source)

def performAll (copies : List VramCopy) (bus : β) : β :=
  copies.foldl (fun bus c => c.perform bus) bus

/-- Copies between consecutive places, up to a number of them or to the end of video memory. -/
def stretch : Nat → UInt16 → UInt16 → List VramCopy
  | 0, _, _ => []
  | n + 1, source, destination =>
    ⟨source, destination⟩ ::
      if destination ≥ 0x9FFF then [] else stretch n (source + 1) (destination + 1)

end VramCopy

def addressesFrom (a : UInt16) (n : Nat) : List UInt16 :=
  (List.range n).map fun i => a + UInt16.ofNat i

theorem addressesFrom_add (a : UInt16) (m n : Nat) :
    addressesFrom a (m + n) = addressesFrom a m ++ addressesFrom (a + UInt16.ofNat m) n := by
  simp [addressesFrom, List.range_add, UInt16.ofNat_add, UInt16.add_assoc]

/-- What is left of a transfer to sprite memory after a byte of it. -/
def OamTransfer.next (t : OamTransfer) : Option OamTransfer :=
  if t.index + 1 < 160 then some { t with index := t.index + 1 } else none

namespace Dma
open DmaBus VramCopy

def copiedIn (line : Option Nat) (copied current : Nat) : Nat :=
  if line = some current then copied else 0

/-- What a cycle copies to video memory, by the number of the horizontal blank in progress. -/
def copies (d : Dma) (blank : Option Nat) : List VramCopy :=
  match d.vram, blank with
  | none, _ => []
  | some (.general blocks), _ => stretch (blocks * blockLength) d.source d.destination
  | some (.hblank _ _ _), none => []
  | some (.hblank _ line copied), some current =>
    if copiedIn line copied current < blockLength then [⟨d.source, d.destination⟩] else []

structure VramState where
  vram : Option VramTransfer
  source : UInt16
  destination : UInt16
  deriving DecidableEq, Repr

def vramState (d : Dma) : VramState := ⟨d.vram, d.source, d.destination⟩

def place (d : Dma) : CopyEnd → UInt16
  | .source => d.source
  | .destination => d.destination

variable {β : Type} [DmaBus β]

theorem copyByte_bus (d : Dma) (bus : β) :
    (d.copyByte bus).2.1 = perform ⟨d.source, d.destination⟩ bus := by
  unfold copyByte
  dsimp only
  split <;> rfl

theorem copyByte_of_room {d : Dma} (bus : β) (h : d.destination < 0x9FFF) :
    d.copyByte bus = ({ d with source := d.source + 1, destination := d.destination + 1 },
      perform ⟨d.source, d.destination⟩ bus, true) := by
  have hroom : ¬ d.destination ≥ 0x9FFF := UInt16.not_le.mpr h
  simp [copyByte, hroom, perform]

theorem copyByte_of_end {d : Dma} (bus : β) (h : d.destination ≥ 0x9FFF) :
    d.copyByte bus = ({ d with source := d.source + 1, destination := 0x8000 },
      perform ⟨d.source, d.destination⟩ bus, false) := by
  simp [copyByte, h, perform]

theorem copyBytes_bus (n : Nat) (d : Dma) (bus : β) :
    (copyBytes n d bus).2 = performAll (stretch n d.source d.destination) bus := by
  induction n generalizing d bus with
  | zero => rfl
  | succ n ih =>
    rw [copyBytes, stretch]
    by_cases h : d.destination ≥ 0x9FFF
    · rw [copyByte_of_end bus h, if_pos h]
      rfl
    · rw [copyByte_of_room bus (UInt16.not_le.mp h), if_neg h]
      exact ih _ _

theorem stepOam_vramState (d : Dma) (bus : β) : (d.stepOam bus).1.vramState = d.vramState := by
  unfold stepOam
  split <;> rfl

theorem stepOam_fst (d : Dma) (bus : β) :
    (d.stepOam bus).1 = { d with oam := d.oam.bind OamTransfer.next } := by
  obtain ⟨oam⟩ := d
  cases oam <;> rfl

theorem stepHBlank_bus (d : Dma) (blocks : Nat) (line : Option Nat) (copied : Nat) (bus : β) :
    (d.stepHBlank blocks line copied bus).2 =
      performAll (copies { d with vram := some (.hblank blocks line copied) } (hblank bus))
        bus := by
  unfold stepHBlank
  cases hblank bus with
  | none => rfl
  | some current =>
    simp only [copies]
    by_cases h : blockLength ≤ copiedIn line copied current
    · have hfull : blockLength ≤ if line = some current then copied else 0 := h
      rw [if_pos hfull, if_neg (Nat.not_lt.mpr h)]
      rfl
    · have hroom : ¬ blockLength ≤ if line = some current then copied else 0 := h
      rw [if_neg hroom, if_pos (Nat.lt_of_not_le h)]
      have hbus := d.copyByte_bus bus
      rcases hcopy : d.copyByte bus with ⟨d', bus', more⟩
      rw [hcopy] at hbus
      cases more <;> exact hbus

theorem step_bus (d : Dma) (bus : β) : (d.step bus).2 =
    performAll (d.copies (hblank (d.stepOam bus).2)) (d.stepOam bus).2 := by
  have hstate := d.stepOam_vramState bus
  rcases hoam : d.stepOam bus with ⟨d', bus'⟩
  rw [hoam] at hstate
  obtain ⟨hvram, hsource, hdestination⟩ : d'.vram = d.vram ∧ d'.source = d.source ∧
      d'.destination = d.destination := by simpa [vramState] using hstate
  simp only [step, hoam, hvram]
  rcases ht : d.vram with _ | blocks | ⟨blocks, line, copied⟩
  · simp [copies, ht, performAll]
  · simp only [stepGeneral, copyBytes_bus, copies, ht, hsource, hdestination]
  · simp only [stepHBlank_bus, copies, ht, hsource, hdestination]

theorem step_of_idle {d : Dma} (bus : β) (h : d.vram = none) : (d.step bus).1 =
    { d with oam := d.oam.bind OamTransfer.next, hold := d.hold - 1 } := by
  have hoam := d.stepOam_fst bus
  rcases hstep : d.stepOam bus with ⟨d', bus'⟩
  rw [hstep] at hoam
  subst hoam
  simp [step, hstep, h]

theorem step_of_general {d : Dma} {blocks : Nat} (bus : β) (h : d.vram = some (.general blocks)) :
    (d.step bus).1.vram = none ∧ (d.step bus).1.hold = blocks * blockHold := by
  have hoam := d.stepOam_fst bus
  rcases hstep : d.stepOam bus with ⟨d', bus'⟩
  rw [hstep] at hoam
  subst hoam
  simp [step, hstep, h, stepGeneral]

theorem step_vramState_of_idle {d : Dma} (bus : β) (h : d.vram = none) :
    (d.step bus).1.vramState = d.vramState := by
  rw [step_of_idle bus h]
  rfl

/-- A cycle of a transfer by blanks, once the byte for sprite memory is out of the way. -/
theorem step_eq_stepHBlank {d : Dma} {blocks copied : Nat} {line : Option Nat} (bus : β)
    (h : d.vram = some (.hblank blocks line copied)) :
    ∃ d' : Dma, d'.vramState = d.vramState ∧
      d.step bus = d'.stepHBlank blocks line copied (d.stepOam bus).2 := by
  have hstate := d.stepOam_vramState bus
  rcases hoam : d.stepOam bus with ⟨d', bus'⟩
  rw [hoam] at hstate
  have hvram : d'.vram = some (.hblank blocks line copied) :=
    (congrArg VramState.vram hstate).trans h
  refine ⟨{ d' with hold := d'.hold - 1 }, hstate, ?_⟩
  simp only [step, hoam, hvram]

theorem step_vramState_of_still {d : Dma} {blocks copied : Nat} {line : Option Nat} (bus : β)
    (h : d.vram = some (.hblank blocks line copied))
    (hstill : d.copies (hblank (d.stepOam bus).2) = []) :
    (d.step bus).1.vramState = d.vramState := by
  obtain ⟨d', hstate, hstep⟩ := step_eq_stepHBlank bus h
  rw [hstep, ← hstate]
  unfold stepHBlank
  cases hblank : hblank (d.stepOam bus).2 with
  | none => rfl
  | some current =>
    have hfull : ¬ copiedIn line copied current < blockLength := by
      intro hroom
      simp [copies, h, hblank, hroom] at hstill
    have hfull : blockLength ≤ if line = some current then copied else 0 := Nat.le_of_not_lt hfull
    simp only [if_pos hfull]

theorem step_vramState_of_copy {d : Dma} {blocks copied current : Nat} {line : Option Nat}
    (bus : β) (h : d.vram = some (.hblank blocks line copied))
    (hblank : hblank (d.stepOam bus).2 = some current)
    (hroom : copiedIn line copied current < blockLength) (hend : d.destination < 0x9FFF) :
    (d.step bus).1.vramState =
      ⟨afterByte blocks current (copiedIn line copied current + 1), d.source + 1,
        d.destination + 1⟩ := by
  obtain ⟨d', hstate, hstep⟩ := step_eq_stepHBlank bus h
  have hsource : d'.source = d.source := congrArg VramState.source hstate
  have hdestination : d'.destination = d.destination := congrArg VramState.destination hstate
  have hroom' : ¬ blockLength ≤ if line = some current then copied else 0 := Nat.not_le.mpr hroom
  rw [hstep, stepHBlank, hblank]
  simp only [if_neg hroom', copyByte_of_room _ (hdestination.symm ▸ hend)]
  simp [vramState, hsource, hdestination, copiedIn]

theorem step_vram_cases (d : Dma) (bus : β) :
    (d.step bus).1.vram = d.vram ∨ (d.step bus).1.vram = none ∨
      ∃ blocks line copied current, d.vram = some (.hblank blocks line copied) ∧
        hblank (d.stepOam bus).2 = some current ∧ copiedIn line copied current < blockLength ∧
        (d.step bus).1.vram = afterByte blocks current (copiedIn line copied current + 1) := by
  rcases ht : d.vram with _ | blocks | ⟨blocks, line, copied⟩
  · exact .inl ((congrArg VramState.vram (step_vramState_of_idle bus ht)).trans ht)
  · have hstate := congrArg VramState.vram (d.stepOam_vramState bus)
    rcases hoam : d.stepOam bus with ⟨d', bus'⟩
    have hvram : d'.vram = some (.general blocks) := by
      rw [hoam] at hstate
      exact hstate.trans ht
    exact .inr (.inl (by simp only [step, hoam, hvram]; rfl))
  · obtain ⟨d', hstate, hstep⟩ := step_eq_stepHBlank bus ht
    have hvram : d'.vram = d.vram := congrArg VramState.vram hstate
    rw [hstep, stepHBlank]
    cases hnumber : hblank (d.stepOam bus).2 with
    | none => exact .inl (hvram.trans ht)
    | some current =>
      by_cases hfull : blockLength ≤ copiedIn line copied current
      · refine .inl ?_
        have hfull : blockLength ≤ if line = some current then copied else 0 := hfull
        simp only [if_pos hfull]
        exact hvram.trans ht
      · have hroom : ¬ blockLength ≤ if line = some current then copied else 0 := hfull
        simp only [if_neg hroom]
        rcases d'.copyByte (d.stepOam bus).2 with ⟨d'', bus'', more⟩
        cases more with
        | false => exact .inr (.inl rfl)
        | true =>
          exact .inr (.inr ⟨blocks, line, copied, current, rfl, rfl, Nat.lt_of_not_le hfull, rfl⟩)

theorem readControl_of_blocks {d : Dma} {blocks copied : Nat} {line : Option Nat}
    (h : d.vram = some (.hblank blocks line copied)) (hle : blocks ≤ 128) :
    d.readControl.toNat = blocks - 1 := by
  have hmask : (0x7F : UInt8).toNat = 2 ^ 7 - 1 := rfl
  simp only [readControl, h, UInt8.toNat_and, hmask, Nat.and_two_pow_sub_one_eq_mod,
    UInt8.toNat_ofNat']
  omega

theorem readControl_of_idle {d : Dma} (h : d.vram = none) : d.readControl = 0xFF := by
  simp [readControl, h]

theorem control_toNat {blocks : Nat} (hle : blocks ≤ 128) :
    (0x80 ||| UInt8.ofNat (blocks - 1)).toNat = 128 + (blocks - 1) := by
  have hlt : blocks - 1 < 2 ^ 7 := by omega
  have hor := Nat.two_pow_add_eq_or_of_lt hlt 1
  rw [UInt8.toNat_or, UInt8.toNat_ofNat', Nat.mod_eq_of_lt (by omega)]
  exact hor.symm

theorem writeControl_hblank (d : Dma) {blocks : Nat} (hpos : 0 < blocks) (hle : blocks ≤ 128) :
    d.writeControl (0x80 ||| UInt8.ofNat (blocks - 1)) =
      { d with vram := some (.hblank blocks none 0) } := by
  have hnat := control_toNat hle
  generalize 0x80 ||| UInt8.ofNat (blocks - 1) = v at *
  have hbit : ¬ v &&& 0x80 = 0 := by
    intro hzero
    have htop : (v &&& 0x80).toNat.testBit 7 = true := by
      rw [UInt8.toNat_and, Nat.testBit_and, Nat.testBit_eq_decide_div_mod_eq, hnat]
      have hseven : (0x80 : UInt8).toNat.testBit 7 = true := rfl
      rw [hseven, Bool.and_true]
      exact decide_eq_true (by omega)
    rw [hzero] at htop
    cases htop
  have hblocks : v.toNat % 128 + 1 = blocks := by omega
  simp only [writeControl, if_neg hbit, hblocks]

theorem writeControl_general {d : Dma} {v : UInt8}
    (h : ∀ blocks line copied, d.vram ≠ some (.hblank blocks line copied)) (hv : v.toNat < 128) :
    d.writeControl v = { d with vram := some (.general (v.toNat + 1)) } := by
  have hbit : v &&& 0x80 = 0 := by
    apply UInt8.toNat_inj.mp
    rw [UInt8.toNat_and]
    refine Nat.eq_of_testBit_eq fun i => ?_
    rw [Nat.testBit_and, show (0x80 : UInt8).toNat = 2 ^ 7 from rfl, Nat.testBit_two_pow,
      show (0 : UInt8).toNat = 0 from rfl, Nat.zero_testBit]
    by_cases hi : 7 = i
    · rw [← hi, Nat.testBit_lt_two_pow hv, Bool.false_and]
    · simp [hi]
  have hblocks : v.toNat % 128 + 1 = v.toNat + 1 := by rw [Nat.mod_eq_of_lt hv]
  simp only [writeControl, hbit, if_true, hblocks]

theorem writeControl_place (d : Dma) (v : UInt8) (e : CopyEnd) :
    (d.writeControl v).place e = d.place e := by
  unfold writeControl
  dsimp only
  split
  · split <;> cases e <;> rfl
  · cases e <;> rfl

theorem write_place (d : Dma) {address : UInt16} (v : UInt8) {e : CopyEnd}
    (h : e.registers.contains address = false) : (d.write address v).place e = d.place e := by
  unfold write
  split
  case h_6 => exact d.writeControl_place v e
  all_goals cases e <;> first | rfl | cases h

theorem write_vram (d : Dma) {address : UInt16} (v : UInt8) (h : address ≠ 0xFF55) :
    (d.write address v).vram = d.vram := by
  unfold write
  split
  case h_6 => exact absurd rfl h
  all_goals rfl

theorem write_hold (d : Dma) (address : UInt16) (v : UInt8) : (d.write address v).hold = d.hold := by
  unfold write
  split
  case h_6 =>
    unfold writeControl
    dsimp only
    split
    · split <;> rfl
    · rfl
  all_goals rfl

end Dma
end Handheld
