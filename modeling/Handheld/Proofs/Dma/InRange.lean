import Handheld.Dma.Checked
import Handheld.Dma.Plain
import Handheld.Proofs.Dma.Places
import Handheld.Proofs.Ppu.Accesses

/-!
What writes and cycles leave of the transfers, whatever the bus answers. The places, counts and
blocks keep to their ranges, so a cycle comes to no sum too great and no write out of place;
and only a write to the control register can add to the blocks that wait for horizontal blanks.
-/

namespace Handheld

/-- As many blocks as the control register can ask for, and no more bytes in a blank than a block
has. -/
def VramTransfer.InRange : VramTransfer → Prop
  | .general blocks => 1 ≤ blocks ∧ blocks ≤ 128
  | .hblank blocks _ copied => (1 ≤ blocks ∧ blocks ≤ 128) ∧ copied ≤ 16

namespace Dma

def InVram (a : UInt16) : Prop := 0x8000 ≤ a ∧ a ≤ 0x9FFF

structure InRange (d : Dma) : Prop where
  destination : InVram d.destination
  oam : ∀ t, d.oam = some t → t.index < 160
  vram : ∀ t, d.vram = some t → t.InRange
  hold : d.hold ≤ 1024

theorem inVram_iff (a : UInt16) : InVram a ↔ 0x8000 ≤ a.toNat ∧ a.toNat ≤ 0x9FFF := by
  simp [InVram, UInt16.le_iff_toNat_le]

theorem InVram.next {a : UInt16} (h : InVram a) (hroom : ¬a ≥ 0x9FFF) :
    InVram (a + 1) ∧ (a + 1).toNat = a.toNat + 1 := by
  have hlt : a.toNat < 0x9FFF := UInt16.lt_iff_toNat_lt.mp (UInt16.not_le.mp hroom)
  have hnext : (a + 1).toNat = a.toNat + 1 := by
    rw [UInt16.toNat_add]
    exact Nat.mod_eq_of_lt (by simp only [UInt16.reduceToNat]; omega)
  rw [inVram_iff] at h ⊢
  omega

theorem vramDestination_inVram (a : UInt16) : InVram (vramDestination a) := by
  obtain ⟨hlow, hhigh⟩ := CopyEnd.confine_destination_toNat a
  exact (inVram_iff _).mpr ⟨hlow, Nat.le_of_lt_succ hhigh⟩

theorem InRange.writeControl {d : Dma} (h : d.InRange) (v : UInt8) :
    (d.writeControl v).InRange := by
  have hblocks : 1 ≤ v.toNat % 128 + 1 ∧ v.toNat % 128 + 1 ≤ 128 := by omega
  unfold Dma.writeControl
  dsimp only
  split
  · split
    · exact { h with vram := by simp }
    · exact { h with vram := fun t ht => by cases ht; exact hblocks }
  · exact { h with vram := fun t ht => by cases ht; exact ⟨hblocks, Nat.zero_le _⟩ }

theorem InRange.write {d : Dma} (h : d.InRange) (address : UInt16) (v : UInt8) :
    (d.write address v).InRange := by
  unfold Dma.write
  split
  case h_1 =>
    refine { h with oam := fun t ht => ?_ }
    cases ht
    exact Nat.succ_pos _
  case h_2 | h_3 => exact { h with }
  case h_4 | h_5 => exact { h with destination := vramDestination_inVram _ }
  case h_6 => exact h.writeControl v
  case h_7 => exact h

theorem checked_write (d : Dma) (address : UInt16) (v : UInt8) :
    Checked.write d address v = some (d.write address v) := by
  unfold Checked.write
  split
  case isFalse => rfl
  case isTrue haddress =>
    have hblocks : Checked.add UInt8.size (v.toNat % 128) 1 = some (v.toNat % 128 + 1) :=
      if_pos (by simp only [UInt8.size]; omega)
    have hwrite : d.write address v = d.writeControl v := by rw [haddress]; rfl
    rw [hwrite]
    simp only [Checked.writeControl, hblocks, Option.bind_eq_bind, Option.bind_some,
      Dma.writeControl]
    split
    · rcases d.vram with _ | _ | _ <;> rfl
    · rfl

variable {β : Type} [DmaBus β]

def Moved (d d' : Dma) : Prop :=
  ∃ source destination, d' = { d with source, destination } ∧ InVram destination

theorem Moved.trans {d d' d'' : Dma} (h : Moved d d') (h' : Moved d' d'') : Moved d d'' := by
  obtain ⟨_, _, rfl, -⟩ := h
  obtain ⟨source, destination, rfl, hplace⟩ := h'
  exact ⟨source, destination, rfl, hplace⟩

theorem Moved.inVram {d d' : Dma} (h : Moved d d') : InVram d'.destination := by
  obtain ⟨_, _, rfl, hplace⟩ := h
  exact hplace

theorem copyByte_moved {d : Dma} (h : InVram d.destination) (bus : β) :
    Moved d (d.copyByte bus).1 := by
  by_cases hend : d.destination ≥ 0x9FFF
  · rw [copyByte_of_end bus hend]
    exact ⟨_, _, rfl, vramDestination_inVram 0⟩
  · rw [copyByte_of_room bus (UInt16.not_le.mp hend)]
    exact ⟨_, _, rfl, (h.next hend).1⟩

theorem checked_copyByte {d : Dma} (h : InVram d.destination) (bus : β) :
    Checked.copyByte d bus = some (d.copyByte bus) := by
  have hwrite : ∀ v, Checked.writeVram bus d.destination v =
      some (DmaBus.writeVram bus d.destination v) := fun v => if_pos h
  simp only [Checked.copyByte, hwrite, Option.bind_eq_bind, Option.bind_some, copyByte]
  split
  case isTrue => rfl
  case isFalse hroom =>
    obtain ⟨hplace, hnext⟩ := h.next hroom
    have hadd : Checked.add UInt16.size d.destination.toNat 1 = some (d.destination + 1).toNat := by
      rw [hnext]
      exact if_pos (hnext ▸ UInt16.toNat_lt _)
    rw [hadd, Option.bind_some, UInt16.ofNat_toNat]
    rfl

theorem copyBytes_moved (n : Nat) {d : Dma} (h : InVram d.destination) (bus : β) :
    Moved d (copyBytes n d bus).1 := by
  induction n generalizing d bus with
  | zero => exact ⟨d.source, d.destination, rfl, h⟩
  | succ n ih =>
    have hmoved := copyByte_moved h bus
    rw [copyBytes]
    rcases hcopy : d.copyByte bus with ⟨d', bus', more⟩
    rw [hcopy] at hmoved
    cases more with
    | true => exact hmoved.trans (ih hmoved.inVram bus')
    | false => exact hmoved

theorem checked_copyBytes (n : Nat) {d : Dma} (h : InVram d.destination) (bus : β) :
    Checked.copyBytes n d bus = some (copyBytes n d bus) := by
  induction n generalizing d bus with
  | zero => rfl
  | succ n ih =>
    have hmoved := copyByte_moved h bus
    rw [Checked.copyBytes, checked_copyByte h, copyBytes]
    rcases hcopy : d.copyByte bus with ⟨d', bus', more⟩
    rw [hcopy] at hmoved
    cases more with
    | true => exact ih hmoved.inVram bus'
    | false => rfl

theorem InRange.stepOam {d : Dma} (h : d.InRange) (bus : β) : (d.stepOam bus).1.InRange := by
  rw [stepOam_fst]
  refine { h with oam := fun t ht => ?_ }
  obtain ⟨t', -, hnext⟩ := Option.bind_eq_some_iff.mp ht
  unfold OamTransfer.next at hnext
  split at hnext
  case isTrue hlt =>
    cases hnext
    exact hlt
  case isFalse => cases hnext

theorem checked_stepOam {d : Dma} (h : d.InRange) (bus : β) :
    Checked.stepOam d bus = some (d.stepOam bus) := by
  unfold Checked.stepOam Dma.stepOam
  cases hoam : d.oam with
  | none => rfl
  | some t =>
    have hindex := h.oam t hoam
    have hwrite : ∀ v, Checked.writeOam bus t.index v = some (DmaBus.writeOam bus t.index v) :=
      fun v => if_pos hindex
    have hadd : Checked.add UInt8.size t.index 1 = some (t.index + 1) :=
      if_pos (by simp only [UInt8.size]; omega)
    simp only [hwrite, hadd, Option.bind_eq_bind, Option.bind_some]
    rfl

theorem InRange.stepGeneral {d : Dma} (h : d.InRange) {blocks : Nat} (hle : blocks ≤ 128)
    (bus : β) : (d.stepGeneral blocks bus).1.InRange := by
  obtain ⟨source, destination, hmoved, hplace⟩ :=
    copyBytes_moved (blocks * blockLength) h.destination bus
  unfold Dma.stepGeneral
  dsimp only
  rw [hmoved]
  refine { h with destination := hplace, vram := by simp, hold := ?_ }
  simp only [blockHold]
  omega

theorem checked_stepGeneral {d : Dma} (h : d.InRange) {blocks : Nat} (hle : blocks ≤ 128)
    (bus : β) : Checked.stepGeneral d blocks bus = some (d.stepGeneral blocks bus) := by
  have hbytes : Checked.mul UInt16.size blocks blockLength = some (blocks * blockLength) :=
    if_pos (by simp only [blockLength, UInt16.size]; omega)
  have hhold : Checked.mul UInt32.size blocks blockHold = some (blocks * blockHold) :=
    if_pos (by simp only [blockHold, UInt32.size]; omega)
  simp only [Checked.stepGeneral, hbytes, hhold, checked_copyBytes _ h.destination,
    Option.bind_eq_bind, Option.bind_some]
  rfl

theorem afterByte_inRange {blocks copied : Nat} (h : 1 ≤ blocks ∧ blocks ≤ 128)
    (hle : copied ≤ 16) (line : Nat) {t : VramTransfer}
    (ht : afterByte blocks line copied = some t) : t.InRange := by
  unfold afterByte at ht
  split at ht
  · split at ht <;> cases ht
    exact ⟨by omega, hle⟩
  · cases ht
    exact ⟨h, hle⟩

theorem checked_afterByte {blocks : Nat} (h : 1 ≤ blocks) (line copied : Nat) :
    Checked.afterByte blocks line copied = some (afterByte blocks line copied) := by
  have hsub : Handheld.Checked.sub blocks 1 = some (blocks - 1) := Handheld.Checked.sub_of_le h
  simp only [Checked.afterByte, hsub, afterByte, Option.bind_eq_bind, Option.bind_some]
  split
  · split <;> rfl
  · rfl

theorem InRange.stepHBlank {d : Dma} (h : d.InRange) {blocks : Nat}
    (hblocks : 1 ≤ blocks ∧ blocks ≤ 128) (line : Option Nat) (copied : Nat) (bus : β) :
    (d.stepHBlank blocks line copied bus).1.InRange := by
  unfold Dma.stepHBlank
  cases DmaBus.hblank bus with
  | none => exact h
  | some current =>
    dsimp only
    -- Whether the blank is a new one does not matter: the count is compared with a block anyway.
    generalize (if line = some current then copied else 0) = n
    split
    case isTrue => exact h
    case isFalse hroom =>
      obtain ⟨source, destination, hmoved, hplace⟩ := copyByte_moved h.destination bus
      rcases hcopy : d.copyByte bus with ⟨d', bus', more⟩
      rw [hcopy] at hmoved
      dsimp only at hmoved
      subst hmoved
      cases more with
      | false => exact { h with destination := hplace, vram := by simp }
      | true =>
        exact { h with
          destination := hplace
          vram := fun t ht => afterByte_inRange hblocks (Nat.lt_of_not_le hroom) current ht }

theorem checked_stepHBlank {d : Dma} (h : d.InRange) {blocks : Nat} (hpos : 1 ≤ blocks)
    (line : Option Nat) (copied : Nat) (bus : β) :
    Checked.stepHBlank d blocks line copied bus = some (d.stepHBlank blocks line copied bus) := by
  unfold Checked.stepHBlank Dma.stepHBlank
  cases DmaBus.hblank bus with
  | none => rfl
  | some current =>
    dsimp only
    generalize (if line = some current then copied else 0) = n
    split
    case isTrue => rfl
    case isFalse hroom =>
      have hadd : Checked.add UInt8.size n 1 = some (n + 1) :=
        if_pos (by simp only [blockLength, UInt8.size] at hroom ⊢; omega)
      rw [checked_copyByte h.destination]
      rcases d.copyByte bus with ⟨d', bus', more⟩
      cases more with
      | false => rfl
      | true =>
        simp only [hadd, checked_afterByte hpos, Option.bind_eq_bind, Option.bind_some]
        rfl

/-- A cycle once the byte for sprite memory and the bus held are out of the way. -/
def stepVram (d : Dma) (bus : β) : Dma × β :=
  match d.vram with
  | none => (d, bus)
  | some (.general blocks) => d.stepGeneral blocks bus
  | some (.hblank blocks line copied) => d.stepHBlank blocks line copied bus

theorem step_eq_stepVram (d : Dma) (bus : β) :
    d.step bus =
      stepVram { (d.stepOam bus).1 with hold := (d.stepOam bus).1.hold - 1 } (d.stepOam bus).2 :=
  rfl

theorem InRange.stepVram {d : Dma} (h : d.InRange) (bus : β) : (d.stepVram bus).1.InRange := by
  unfold Dma.stepVram
  split
  case h_1 => exact h
  case h_2 blocks hvram => exact h.stepGeneral (h.vram _ hvram).2 bus
  case h_3 blocks line copied hvram => exact h.stepHBlank (h.vram _ hvram).1 line copied bus

theorem checked_stepVram {d : Dma} (h : d.InRange) (bus : β) :
    Checked.stepVram d bus = some (d.stepVram bus) := by
  unfold Checked.stepVram Dma.stepVram
  cases hvram : d.vram with
  | none => rfl
  | some t =>
    have ht := h.vram t hvram
    cases t with
    | general blocks => exact checked_stepGeneral h ht.2 bus
    | hblank blocks line copied => exact checked_stepHBlank h ht.1.1 line copied bus

theorem InRange.release {d : Dma} (h : d.InRange) : InRange { d with hold := d.hold - 1 } :=
  { h with hold := Nat.le_trans (Nat.sub_le _ _) h.hold }

theorem checked_release (hold : Nat) : Checked.release hold = some (hold - 1) := by
  unfold Checked.release
  split
  case isTrue hpos => exact Handheld.Checked.sub_of_le hpos
  case isFalse hzero => rw [Nat.eq_zero_of_not_pos hzero]

theorem InRange.step {d : Dma} (h : d.InRange) (bus : β) : (d.step bus).1.InRange := by
  rw [step_eq_stepVram]
  exact (h.stepOam bus).release.stepVram _

theorem checked_step {d : Dma} (h : d.InRange) (bus : β) :
    Checked.step d bus = some (d.step bus) := by
  rw [Checked.step, checked_stepOam h, step_eq_stepVram]
  simp only [checked_release, Option.bind_eq_bind, Option.bind_some]
  exact checked_stepVram (h.stepOam bus).release _

/-- What comes of a unit by writes to registers of a kind and by cycles, each on a bus of its
own. -/
inductive Reaches (kind : UInt16 → Prop) (d : Dma) : Dma → Prop where
  | refl : Reaches kind d d
  | write {d' : Dma} (h : Reaches kind d d') {address : UInt16} (haddress : kind address)
      (v : UInt8) : Reaches kind d (d'.write address v)
  | step {d' : Dma} (h : Reaches kind d d') {β : Type} [DmaBus β] (bus : β) :
      Reaches kind d (d'.step bus).1

def Reachable (d : Dma) : Prop := Reaches (fun _ => True) {} d

theorem Reachable.inRange {d : Dma} (h : d.Reachable) : d.InRange := by
  induction h with
  | refl =>
    exact ⟨vramDestination_inVram 0, fun t ht => (by cases ht), fun t ht => (by cases ht),
      Nat.zero_le _⟩
  | write _ _ v ih => exact ih.write _ v
  | step _ bus ih => exact ih.step bus

/-- A transfer of at most so many blocks, by horizontal blanks, or none. -/
def AtMost (n : Nat) (t : Option VramTransfer) : Prop :=
  t = none ∨ ∃ blocks line copied, t = some (.hblank blocks line copied) ∧ blocks ≤ n

theorem AtMost.afterByte {n blocks : Nat} (h : blocks ≤ n) (line copied : Nat) :
    AtMost n (afterByte blocks line copied) := by
  unfold Dma.afterByte
  split
  · split
    · exact .inl rfl
    · exact .inr ⟨_, _, _, rfl, Nat.le_trans (Nat.sub_le _ _) h⟩
  · exact .inr ⟨_, _, _, rfl, h⟩

theorem AtMost.step {n : Nat} {d : Dma} (h : AtMost n d.vram) (bus : β) :
    AtMost n (d.step bus).1.vram := by
  rcases step_vram_cases d bus with
    hsame | hnone | ⟨blocks, line, copied, current, hvram, -, -, hafter⟩
  · rwa [hsame]
  · exact .inl hnone
  · rw [hafter]
    refine AtMost.afterByte ?_ _ _
    rcases h with hidle | ⟨blocks', _, _, hvram', hle⟩
    · rw [hvram] at hidle
      cases hidle
    · rw [hvram] at hvram'
      cases hvram'
      exact hle

theorem Reaches.atMost {n : Nat} {d d' : Dma} (h : Reaches (· ≠ 0xFF55) d d')
    (hd : AtMost n d.vram) : AtMost n d'.vram := by
  induction h with
  | refl => exact hd
  | write _ haddress v ih => rwa [write_vram _ v haddress]
  | step _ bus ih => exact ih.step bus

/-- A unit after any writes and cycles. Its places and counts are in range; the next write or cycle
comes to no sum too great for its counter and no write outside its memory; and a transfer by
horizontal blanks never has more blocks to come while the control register is not written. -/
theorem stays_in_range {d : Dma} (h : d.Reachable) :
    (0x8000 ≤ d.destination ∧ d.destination ≤ 0x9FFF) ∧
    (∀ t, d.oam = some t → t.index < 160) ∧
    (∀ blocks line copied, d.vram = some (.hblank blocks line copied) →
      1 ≤ blocks ∧ blocks ≤ 128 ∧ copied ≤ 16) ∧
    d.hold ≤ 1024 ∧
    (∀ address v, Checked.write d address v = some (d.write address v)) ∧
    (∀ {β : Type} [DmaBus β] (bus : β), Checked.step d bus = some (d.step bus)) ∧
    (∀ blocks line copied d', d.vram = some (.hblank blocks line copied) →
      Reaches (· ≠ 0xFF55) d d' →
      d'.vram = none ∨ ∃ blocks' line' copied',
        d'.vram = some (.hblank blocks' line' copied') ∧ blocks' ≤ blocks) := by
  have hrange := h.inRange
  refine ⟨hrange.destination, hrange.oam, fun blocks line copied hvram => ?_, hrange.hold,
    checked_write d, fun bus => checked_step hrange bus,
    fun blocks line copied d' hvram hreach => ?_⟩
  · obtain ⟨⟨hpos, hle⟩, hcopied⟩ := hrange.vram _ hvram
    exact ⟨hpos, hle, hcopied⟩
  · exact hreach.atMost (.inr ⟨blocks, line, copied, hvram, Nat.le_refl _⟩)

/-- A page for sprite memory, and two blocks for the last sixteen bytes of video memory. -/
def lastBlock : Dma :=
  ((({} : Dma).write 0xFF46 0xC0).write 0xFF53 0x9F |>.write 0xFF54 0xF0).write 0xFF55 0x81

def inBlank : PlainBus := { memory := .zeroed _, line := some 7 }

theorem lastBlock_in_range :
    let d := (lastBlock.step inBlank).1
    d.Reachable ∧ d.destination = 0x9FF1 ∧ d.vram = some (.hblank 2 (some 7) 1) ∧
      0x9FF1 ≤ (0x9FFF : UInt16) ∧ Checked.step d inBlank = some (d.step inBlank) ∧
      ∀ d', Reaches (· ≠ 0xFF55) d d' → d'.vram = none ∨ ∃ blocks' line' copied',
        d'.vram = some (.hblank blocks' line' copied') ∧ blocks' ≤ 2 := by
  intro d
  have hreachable : d.Reachable :=
    ((((Reaches.refl.write trivial _).write trivial _).write trivial _).write trivial _).step _
  have hplace : d.destination = 0x9FF1 := by decide +kernel
  have hvram : d.vram = some (.hblank 2 (some 7) 1) := by decide +kernel
  obtain ⟨⟨-, hend⟩, -, -, -, -, hstep, hblocks⟩ := stays_in_range hreachable
  rw [hplace] at hend
  exact ⟨hreachable, hplace, hvram, hend, hstep inBlank, fun d' => hblocks _ _ _ d' hvram⟩

end Dma
end Handheld
