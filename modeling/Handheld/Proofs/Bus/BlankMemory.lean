import Handheld.Proofs.Bus.BlankTransfer
import Handheld.Proofs.Bus.GeneralTransfer

/-!
Video memory while a transfer waits for the blanks and copies in them. A cycle copies the byte at
the source to the destination or leaves video memory as it is, so a run of copies fills a stretch
of it and nothing else.
-/

namespace Handheld

theorem Cell.videoAt_ne {bank : Fin 2} {a : UInt16} {i j : Nat} (hij : i < j)
    (hfew : j < i + 0x2000) :
    videoAt bank (a + UInt16.ofNat i) ≠ videoAt bank (a + UInt16.ofNat j) := by
  intro h
  have hoffset : (a + UInt16.ofNat i).toNat % 0x2000 = (a + UInt16.ofNat j).toNat % 0x2000 :=
    congrArg Fin.val (Cell.video.inj h).2
  simp only [UInt16.toNat_add, UInt16.toNat_ofNat'] at hoffset
  omega

namespace Bus
open Dma

variable {σ : Type} [ExternalMemory σ] {b : Bus σ} {blocks copied : Nat} {line : Option Nat}
  {bank : Fin 2} {events : List Event}

/-- Neither a write to video memory nor the choice of a bank of it. -/
def Event.sparesVideo : Event → Bool
  | .write address _ => address != 0xFF4F && Region.ofAddress address != .vram
  | _ => true

theorem perform_spared {e : Event} (hcycle : e.isCycle = false) (h : e.sparesVideo) :
    (b.perform e).ppu.vram = b.ppu.vram ∧ (b.perform e).ppu.vramBank = b.ppu.vramBank := by
  rcases e.kind with rfl | ⟨address, v, rfl⟩ | ⟨-, hwrite⟩
  · cases hcycle
  · obtain ⟨hbank, hregion⟩ : address ≠ 0xFF4F ∧ Region.ofAddress address ≠ .vram := by
      simpa [Event.sparesVideo] using h
    refine ⟨?_, (b.write_vramBank address v).2.trans (if_neg fun both => hbank both.2)⟩
    cases hplace : Region.ofAddress address with
    | vram => exact absurd hplace hregion
    | io =>
      simp only [perform, write, hplace]
      exact (b.writeIo_memories address v).2.2.2.1
    | _ => simp only [perform, write, hplace, Ppu.writeOam]
  · rw [(perform_other hcycle hwrite).1]
    exact ⟨rfl, rfl⟩

theorem performAll_vramBank (hspares : ∀ e ∈ events, e.sparesVideo) :
    (b.performAll events).ppu.vramBank = b.ppu.vramBank := by
  refine performAll_invariant (I := fun b' => b'.ppu.vramBank = b.ppu.vramBank) rfl
    fun b' e he h => ?_
  cases hcycle : e.isCycle with
  | true =>
    obtain rfl := e.eq_cycle hcycle
    exact b'.cycle_vramBank.trans h
  | false => exact (perform_spared hcycle (hspares e he)).2.trans h

/-- A cycle that copies one byte to the selected bank of video memory, and changes no other. -/
def CopiesByte (b : Bus σ) : Prop :=
  ∀ bank : Fin 2, b.ppu.vramBank = bank → ∀ bank' offset, b.cycle.byte (.video bank' offset) =
    if .video bank' offset = Cell.videoAt bank b.dma.destination then
      b.peek (dmaAddress b.dma.source)
    else b.byte (.video bank' offset)

theorem cycle_vram_of_still (h : b.copies = []) : b.cycle.ppu.vram = b.ppu.vram := by
  obtain ⟨oam, hoam⟩ := stepOam_bus b.dma b.stepPpu.stepTimer
  rw [cycle_vram, h, hoam]
  exact congrArg Ppu.Contents.vram b.ppu.step_contents

theorem copiesByte_of_copies (h : b.copies = [⟨b.dma.source, b.dma.destination⟩]) :
    b.CopiesByte := by
  intro bank hbank bank' offset
  obtain ⟨moved, ⟨hvram, hmoved, hread⟩, hcycle⟩ := b.cycle_video_byte
  rw [hcycle, h, ← hread]
  simp only [VramCopy.performAll, List.foldl_cons, List.foldl_nil, VramCopy.perform,
    DmaBus.writeVram, DmaBus.readByte, byte, Ppu.writeVram, Ppu.vramOffset, Vram.byte,
    Memory.read_write, hmoved.trans hbank, vramBankSize, hvram, Cell.videoAt, Cell.video.injEq,
    Fin.ext_iff, Fin.val_ofNat]
  exact ite_congr (propext (by omega)) (fun _ => rfl) fun _ => rfl

theorem cycle_vram_of_outside (h : b.dma.vram = some (.hblank blocks line copied))
    (hout : ¬(b.ppu.lcdEnabled ∧ b.cycle.ppu.mode = .hblank)) : b.cycle.ppu.vram = b.ppu.vram :=
  cycle_vram_of_still (Decidable.byContradiction fun hsome => hout (blank_of_copies h hsome))

/-- A transfer that copies no more than a byte a cycle keeps clear of all but its stretch. -/
theorem performAll_kept (hwaits : ∀ n, b.dma.vram ≠ some (.general n))
    (hcontrol : ∀ e ∈ events, e.controlsTransfer = false)
    (hsets : ∀ e ∈ events, e.sets .destination = false) (hspares : ∀ e ∈ events, e.sparesVideo)
    (hend : ∀ c ∈ b.copiesOver events, c.destination < 0x9FFF) (hbank : b.ppu.vramBank = bank)
    {bank' : Fin 2} {offset : Fin 0x2000}
    (hclear : ∀ i < (b.copiesOver events).length,
      .video bank' offset ≠ Cell.videoAt bank (b.dma.destination + UInt16.ofNat i)) :
    (b.performAll events).byte (.video bank' offset) = b.byte (.video bank' offset) := by
  induction events generalizing b with
  | nil => rfl
  | cons e rest ih =>
    obtain ⟨hcontrol, hcontrol'⟩ := List.forall_mem_cons.mp hcontrol
    obtain ⟨hsets, hsets'⟩ := List.forall_mem_cons.mp hsets
    obtain ⟨hspares, hspares'⟩ := List.forall_mem_cons.mp hspares
    rw [performAll_cons]
    cases hcycle : e.isCycle with
    | true =>
      obtain rfl := e.eq_cycle hcycle
      rw [copiesOver_cycle] at hend hclear
      obtain ⟨-, hplace⟩ :=
        cycle_place hwaits (fun c hc => hend c (List.mem_append_left _ hc)) .destination
      have hplace : b.cycle.dma.destination = b.dma.destination + UInt16.ofNat b.copies.length :=
        hplace
      have hrest := ih (cycle_waits hwaits) hcontrol' hsets' hspares'
        (fun c hc => hend c (List.mem_append_right _ hc)) (b.cycle_vramBank.trans hbank)
        fun i hi => by
          rw [hplace, UInt16.add_assoc, ← UInt16.ofNat_add]
          exact hclear _ (by rw [List.length_append]; omega)
      refine hrest.trans ?_
      rcases copies_of_waiting hwaits with hstill | hcopy
      · simp only [byte, cycle_vram_of_still hstill]
      · have hfirst := hclear 0 (by simp [hcopy])
        rw [show b.dma.destination + UInt16.ofNat 0 = b.dma.destination from UInt16.add_zero _]
          at hfirst
        exact (copiesByte_of_copies hcopy bank hbank bank' offset).trans (if_neg hfirst)
    | false =>
      obtain ⟨hvram, hplace⟩ := perform_dma (b := b) hcycle
      obtain ⟨hmemory, hselected⟩ := perform_spared (b := b) hcycle hspares
      have hplace : (b.perform e).dma.destination = b.dma.destination :=
        hplace .destination hsets
      rw [copiesOver_other hcycle] at hend hclear
      have hrest := ih (by rw [hvram hcontrol]; exact hwaits) hcontrol' hsets' hspares' hend
        (hselected.trans hbank) (by rw [hplace]; exact hclear)
      refine hrest.trans ?_
      simp only [byte, hmemory]

theorem exists_copy (hwaits : ∀ n, b.dma.vram ≠ some (.general n))
    (hcontrol : ∀ e ∈ events, e.controlsTransfer = false) {i : Nat}
    (hi : i < (b.copiesOver events).length) : ∃ front rest, events = front ++ .cycle :: rest ∧
      (b.copiesOver front).length = i ∧ (b.performAll front).copies ≠ [] := by
  induction events generalizing b i with
  | nil => cases hi
  | cons e rest ih =>
    obtain ⟨hcontrol, hcontrol'⟩ := List.forall_mem_cons.mp hcontrol
    cases hcycle : e.isCycle with
    | true =>
      obtain rfl := e.eq_cycle hcycle
      rw [copiesOver_cycle, List.length_append] at hi
      by_cases hhere : i = 0 ∧ b.copies ≠ []
      · exact ⟨[], rest, rfl, hhere.1.symm, hhere.2⟩
      · have hone : b.copies.length ≤ i := by
          rcases copies_of_waiting hwaits with hnone | hsome
          · simp [hnone]
          · simp only [hsome, ne_eq, List.cons_ne_self, not_false_eq_true, and_true] at hhere
            simp only [hsome, List.length_singleton]
            omega
        obtain ⟨front, rest', hsplit, hlength, hcopies⟩ :=
          ih (cycle_waits hwaits) hcontrol' (i := i - b.copies.length) (by omega)
        refine ⟨.cycle :: front, rest', by rw [hsplit]; rfl, ?_, hcopies⟩
        rw [copiesOver_cycle, List.length_append, hlength]
        omega
    | false =>
      rw [copiesOver_other hcycle] at hi
      have hvram := (perform_dma (b := b) hcycle).1 hcontrol
      obtain ⟨front, rest', hsplit, hlength, hcopies⟩ :=
        ih (by rw [hvram]; exact hwaits) hcontrol' hi
      exact ⟨e :: front, rest', by rw [hsplit]; rfl, by rw [copiesOver_other hcycle, hlength],
        hcopies⟩

/-- Video memory after some events that copied `n` bytes from the places of a transfer on: each is
what was to be seen at its source when the transfer had come to it, and no other has changed. -/
structure Filled (b : Bus σ) (events : List Event) (bank : Fin 2) (n : Nat) : Prop where
  copied : ∀ i < n, ∃ front rest, events = front ++ .cycle :: rest ∧
    (b.performAll front).dma.destination = b.dma.destination + UInt16.ofNat i ∧
    (b.performAll front).cycle.dma.destination = b.dma.destination + UInt16.ofNat (i + 1) ∧
    (b.performAll events).byte (.videoAt bank (b.dma.destination + UInt16.ofNat i)) =
      (b.performAll front).peek (dmaAddress (b.dma.source + UInt16.ofNat i))
  kept : ∀ bank' offset,
    (∀ i < n, .video bank' offset ≠ Cell.videoAt bank (b.dma.destination + UInt16.ofNat i)) →
      (b.performAll events).byte (.video bank' offset) = b.byte (.video bank' offset)

theorem filled_of_waiting (hwaits : ∀ n, b.dma.vram ≠ some (.general n))
    (hcontrol : ∀ e ∈ events, e.controlsTransfer = false)
    (hsets : ∀ place, ∀ e ∈ events, e.sets place = false) (hspares : ∀ e ∈ events, e.sparesVideo)
    (hend : ∀ c ∈ b.copiesOver events, c.destination < 0x9FFF)
    (hfew : (b.copiesOver events).length ≤ 0x2000) (hbank : b.ppu.vramBank = bank) :
    b.Filled events bank (b.copiesOver events).length := by
  refine ⟨fun i hi => ?_, fun bank' offset hclear =>
    performAll_kept hwaits hcontrol (hsets .destination) hspares hend hbank hclear⟩
  obtain ⟨front, rest, rfl, hplace, hcopies⟩ := exists_copy hwaits hcontrol hi
  refine ⟨front, rest, rfl, ?_⟩
  have hfront {e : Event} (he : e ∈ front) : e ∈ front ++ .cycle :: rest :=
    List.mem_append_left _ he
  have hrest {e : Event} (he : e ∈ rest) : e ∈ front ++ .cycle :: rest :=
    List.mem_append_right _ (List.mem_cons_of_mem _ he)
  rw [copiesOver_append, copiesOver_cycle] at hend hfew
  have hplaces (place : CopyEnd) : (b.performAll front).dma.place place =
      b.dma.place place + UInt16.ofNat i := by
    rw [← hplace]
    exact (copiesOver_place place hwaits (fun e he => hcontrol e (hfront he))
      (fun e he => hsets place e (hfront he)) fun c hc => hend c (List.mem_append_left _ hc)).2
  have hsource : (b.performAll front).dma.source = b.dma.source + UInt16.ofNat i :=
    hplaces .source
  have hdestination : (b.performAll front).dma.destination =
      b.dma.destination + UInt16.ofNat i := hplaces .destination
  have hwaits' := performAll_waits hwaits fun e he => hcontrol e (hfront he)
  have hselected := (performAll_vramBank (b := b) fun e he => hspares e (hfront he)).trans hbank
  rw [performAll_append]
  generalize b.performAll front = now at *
  have hcopy := (copies_of_waiting hwaits').resolve_left hcopies
  have hnext : now.cycle.dma.destination = now.dma.destination + UInt16.ofNat now.copies.length :=
    (cycle_place hwaits' (fun c hc => hend c (by simp [hc])) .destination).2
  rw [hcopy, List.length_singleton, hdestination, UInt16.add_assoc, ← UInt16.ofNat_add] at hnext
  refine ⟨hdestination, hnext, ?_⟩
  have hbyte : now.cycle.byte (.videoAt bank now.dma.destination) =
      now.peek (dmaAddress now.dma.source) :=
    (copiesByte_of_copies hcopy bank hselected bank _).trans (if_pos rfl)
  rw [hsource, hdestination] at hbyte
  -- the copies that are still to come go behind the byte
  refine Eq.trans ?_ hbyte
  refine performAll_kept (cycle_waits hwaits') (fun e he => hcontrol e (hrest he))
    (fun e he => hsets .destination e (hrest he)) (fun e he => hspares e (hrest he))
    (fun c hc => hend c (by simp [hc])) (now.cycle_vramBank.trans hselected) fun j hj => ?_
  rw [hnext, UInt16.add_assoc, ← UInt16.ofNat_add]
  rw [hcopy, List.length_append, List.length_append, List.length_singleton] at hfew
  exact Cell.videoAt_ne (by omega) (by omega)

theorem Filled.byte_of_cycles {n start : Nat} (h : b.Filled events bank n)
    (hcycles : ∀ e ∈ events, e = .cycle) (hplace : b.dma.destination.toNat = 0x8000 + start)
    (hroom : start + n ≤ 0x2000) (hsource : ∀ i < n,
      Region.ofAddress (dmaAddress (b.dma.source + UInt16.ofNat i)) ≠ .vram)
    (offset : Fin 0x2000) : (b.performAll events).byte (.video bank offset) =
      if start ≤ offset ∧ offset < start + n then
        b.peek (dmaAddress (b.dma.source + UInt16.ofNat (offset - start)))
      else b.byte (.video bank offset) := by
  have hcell (i : Nat) (hi : i < n) (o : Fin 0x2000) :
      .video bank o = Cell.videoAt bank (b.dma.destination + UInt16.ofNat i) ↔ o = start + i := by
    simp only [Cell.videoAt, Cell.video.injEq, true_and, Fin.ext_iff, Fin.val_ofNat,
      UInt16.toNat_add, UInt16.toNat_ofNat', hplace]
    omega
  split
  case isTrue hin =>
    have hi : offset - start < n := by omega
    obtain ⟨front, rest, hsplit, -, -, hbyte⟩ := h.copied _ hi
    rw [(hcell _ hi offset).mpr (by omega), hbyte]
    have hmemory : b.SameMemory (b.performAll front) :=
      b.performAll_sameMemory fun e he a v hwrite => by
        have hmem : e ∈ events := hsplit ▸ List.mem_append_left _ he
        rw [hcycles e hmem] at hwrite
        cases hwrite
    exact hmemory.peek ((dmaAddress_region _).resolve_left (hsource _ hi))
  case isFalse hout =>
    exact h.kept bank offset fun i hi hsame => hout (by have := (hcell i hi offset).mp hsame; omega)

end Bus
end Handheld
