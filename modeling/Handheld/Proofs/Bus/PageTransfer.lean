import Handheld.Proofs.Bus.Cells

/-!
The copy of a page to sprite memory, over any course of events that writes nothing. A byte is copied
on each cycle, so after so many of them the first bytes are those of the page and the others are as
they were, also where the copy took the place of one under way.
-/

namespace Handheld.Bus

theorem dmaAddress_toNat (a : UInt16) :
    (dmaAddress a).toNat = if 0xE000 ≤ a.toNat then a.toNat - 0x2000 else a.toNat := by
  have hle : 0xE000 ≤ a ↔ 0xE000 ≤ a.toNat := UInt16.le_iff_toNat_le
  unfold dmaAddress
  by_cases h : 0xE000 ≤ a.toNat
  · rw [if_pos h, if_pos (hle.mpr h)]
    exact UInt16.toNat_sub_of_le _ _ (UInt16.le_iff_toNat_le.mpr (Nat.le_trans (by decide) h))
  · rw [if_neg h, if_neg fun h' => h (hle.mp h')]

theorem dmaAddress_region (a : UInt16) : Region.ofAddress (dmaAddress a) = .vram ∨
    InMemory (dmaAddress a) ∨ Region.ofAddress (dmaAddress a) = .cartridge := by
  have hlt : (dmaAddress a).toNat < 0xE000 := by
    have htop := a.toNat_lt
    rw [dmaAddress_toNat]
    split <;> omega
  have hplace := Region.holds_ofAddress (dmaAddress a)
  cases hregion : Region.ofAddress (dmaAddress a) with
  | vram => exact .inl rfl
  | cartridge => exact .inr (.inr rfl)
  | wram => exact .inr (.inl (.inl hregion))
  | oam | unusable | io | hram | enable =>
    rw [hregion, Region.Holds] at hplace
    omega

/-- The address of a byte of a page, from E0 on in the echo of work memory. -/
def pageAddress (page : UInt8) (i : Nat) : UInt16 :=
  UInt16.ofNat ((if 0xE0 ≤ page then page.toNat - 0x20 else page.toNat) * 256 + i)

theorem dmaAddress_page (page : UInt8) {i : Nat} (h : i < 160) :
    dmaAddress (page.toUInt16 <<< 8 + UInt16.ofNat i) = pageAddress page i := by
  have hpage := page.toNat_lt
  have hle : 0xE0 ≤ page ↔ 0xE0 ≤ page.toNat := UInt8.le_iff_toNat_le
  have hshift : (page.toUInt16 <<< 8).toNat = page.toNat * 256 := by
    have hlt : page.toNat * 256 < 2 ^ 16 := by omega
    simpa [Nat.shiftLeft_eq] using Nat.mod_eq_of_lt hlt
  have hsum : (page.toUInt16 <<< 8 + UInt16.ofNat i).toNat = page.toNat * 256 + i := by
    rw [UInt16.toNat_add, hshift, UInt16.toNat_ofNat']
    omega
  apply UInt16.toNat_inj.mp
  rw [dmaAddress_toNat, hsum, pageAddress, UInt16.toNat_ofNat']
  by_cases hecho : 0xE0 ≤ page.toNat
  · rw [if_pos (by omega), if_pos (hle.mpr hecho)]
    omega
  · rw [if_neg (by omega), if_neg fun h' => hecho (hle.mp h')]
    omega

variable {σ : Type} [ExternalMemory σ]

theorem SameMemory.peek_source {b b' : Bus σ} (h : b.SameMemory b')
    (hvram : b'.ppu.vram = b.ppu.vram) (hbank : b'.ppu.vramBank = b.ppu.vramBank) (a : UInt16) :
    b'.peek (dmaAddress a) = b.peek (dmaAddress a) := by
  rcases dmaAddress_region a with hregion | hother
  · simp only [Bus.peek, hregion, Ppu.readVram, Ppu.vramOffset, hvram, hbank]
  · exact h.peek hother

theorem cycle_vramBank (b : Bus σ) : b.cycle.ppu.vramBank = b.ppu.vramBank := by
  obtain ⟨timer, serial, interrupts, vram, oam, h⟩ := b.cycle_bus
  rw [h]
  exact congrArg Ppu.Contents.vramBank b.ppu.step_contents

theorem cycle_vram_of_idle {b : Bus σ} (h : b.dma.vram = none) : b.cycle.ppu.vram = b.ppu.vram := by
  have hcopies : b.copies = [] := by simp [copies, Dma.copies, h]
  obtain ⟨oam, hoam⟩ := stepOam_bus b.dma b.stepPpu.stepTimer
  rw [cycle_vram, hcopies, hoam]
  exact congrArg Ppu.Contents.vram b.ppu.step_contents

theorem cycle_oam (b : Bus σ) : b.cycle.ppu.oam = match b.dma.oam with
    | none => b.ppu.oam
    | some t => b.ppu.oam.write t.index (b.peek (dmaAddress (t.source + UInt16.ofNat t.index))) := by
  have hppu : b.stepPpu.stepTimer.ppu.contents = b.ppu.contents := b.ppu.step_contents
  have hoam : b.stepPpu.stepTimer.ppu.oam = b.ppu.oam := congrArg Ppu.Contents.oam hppu
  have hmemory : b.SameMemory b.stepPpu.stepTimer := ⟨rfl, rfl, rfl, rfl⟩
  have hsource := hmemory.peek_source (congrArg Ppu.Contents.vram hppu)
    (congrArg Ppu.Contents.vramBank hppu)
  obtain ⟨vram, hcopied⟩ := performCopies_bus b.copies (b.dma.stepOam b.stepPpu.stepTimer).2
  have hcycle : b.cycle.ppu.oam = (b.dma.stepOam b.stepPpu.stepTimer).2.ppu.oam := by
    have hbus : (b.dma.step b.stepPpu.stepTimer).2 =
        VramCopy.performAll b.copies (b.dma.stepOam b.stepPpu.stepTimer).2 := by
      rw [Dma.step_bus, stepOam_hblank]
      rfl
    have hppu : b.cycle.ppu = (b.dma.step b.stepPpu.stepTimer).2.ppu := rfl
    rw [hppu, hbus, hcopied]
  rw [hcycle]
  unfold Dma.stepOam
  cases b.dma.oam with
  | none => exact hoam
  | some t => simp only [DmaBus.readByte, DmaBus.writeOam, Ppu.writeOam, hoam, hsource]

theorem cycle_dma_of_idle {b : Bus σ} (h : b.dma.vram = none) : b.cycle.dma =
    { b.dma with oam := b.dma.oam.bind OamTransfer.next, hold := b.dma.hold - 1 } := by
  rw [cycle_dma, Dma.step_of_idle _ h]

/-- So many cycles after a page was asked for, when the bus was as at `start`. -/
structure InPage (start : Bus σ) (page : UInt8) (k : Nat) (b : Bus σ) : Prop where
  transfer : b.dma.oam = if k < 160 then some ⟨page.toUInt16 <<< 8, k⟩ else none
  asked : b.dma.oamPage = page
  idle : b.dma.vram = none
  memory : start.SameMemory b
  vram : b.ppu.vram = start.ppu.vram
  bank : b.ppu.vramBank = start.ppu.vramBank
  sprites : ∀ i < 160, b.ppu.oam.read i =
    if i < k then start.peek (pageAddress page i) else start.ppu.oam.read i

variable {start b : Bus σ} {page : UInt8} {k : Nat}

theorem read_page (b : Bus σ) : (b.read 0xFF46).1 = b.dma.oamPage := by
  have htarget : IoTarget.ofAddress b.model 0xFF46 = .oamDma := rfl
  have hregion : Region.ofAddress 0xFF46 = .io := rfl
  simp only [read, hregion, if_true, readIo, htarget, Dma.read]

theorem write_page (b : Bus σ) (page : UInt8) : b.write 0xFF46 page =
    { b with dma := { b.dma with oamPage := page, oam := some ⟨page.toUInt16 <<< 8, 0⟩ } } := by
  have htarget : IoTarget.ofAddress b.model 0xFF46 = .oamDma := rfl
  have hregion : Region.ofAddress 0xFF46 = .io := rfl
  simp only [write, hregion, writeIo, htarget, Dma.write]

theorem inPage_write (h : start.dma.vram = none) (page : UInt8) :
    InPage start page 0 (start.write 0xFF46 page) := by
  rw [write_page]
  exact {
    transfer := rfl
    asked := rfl
    idle := h
    memory := ⟨rfl, rfl, rfl, rfl⟩
    vram := rfl
    bank := rfl
    sprites := fun _ _ => rfl }

theorem InPage.cycle (h : InPage start page k b) : InPage start page (k + 1) b.cycle := by
  have hdma := cycle_dma_of_idle h.idle
  have hoam := b.cycle_oam
  have hsource := h.memory.peek_source h.vram h.bank
  have hmemory : start.SameMemory b.cycle :=
    h.memory.trans (b.perform_sameMemory (e := .cycle) (by simp))
  refine ⟨?_, ?_, ?_, hmemory, (cycle_vram_of_idle h.idle).trans h.vram,
    b.cycle_vramBank.trans h.bank, fun i hi => ?_⟩
  · rw [hdma, h.transfer]
    by_cases hmore : k < 160
    · rw [if_pos hmore]
      rfl
    · rw [if_neg hmore, if_neg (by omega)]
      rfl
  · rw [hdma]
    exact h.asked
  · rw [hdma]
    exact h.idle
  · rw [hoam, h.transfer]
    by_cases hmore : k < 160
    · have hbyte := hsource (page.toUInt16 <<< 8 + UInt16.ofNat k)
      rw [dmaAddress_page page hmore] at hbyte
      rw [if_pos hmore]
      simp only [Memory.read_write, dmaAddress_page page hmore, hbyte, h.sprites i hi]
      by_cases hk : k = i
      · subst hk
        rw [if_pos ⟨rfl, hmore⟩, if_pos (by omega)]
      · rw [if_neg (fun both => hk both.1)]
        exact ite_congr (propext (by omega)) (fun _ => rfl) fun _ => rfl
    · rw [if_neg hmore]
      exact (h.sprites i hi).trans
        (ite_congr (propext (by omega)) (fun _ => rfl) fun _ => rfl)

theorem InPage.perform {e : Event} (h : InPage start page k b) (hwrite : ∀ a v, e ≠ .write a v) :
    InPage start page (k + cyclesOf [e]) (b.perform e) := by
  rcases e.kind with rfl | ⟨a, v, rfl⟩ | ⟨hcycle, -⟩
  · exact h.cycle
  · exact absurd rfl (hwrite a v)
  · obtain ⟨hppu, hdma⟩ := perform_other (b := b) hcycle hwrite
    rw [cyclesOf_other hcycle]
    exact ⟨hdma ▸ h.transfer, hdma ▸ h.asked, hdma ▸ h.idle,
      h.memory.trans (b.perform_sameMemory hwrite), hppu ▸ h.vram, hppu ▸ h.bank,
      hppu ▸ h.sprites⟩

theorem InPage.performAll {events : List Event} (h : InPage start page k b)
    (hwrite : ∀ e ∈ events, ∀ a v, e ≠ .write a v) :
    InPage start page (k + cyclesOf events) (b.performAll events) := by
  induction events generalizing b k with
  | nil => exact h
  | cons e rest ih =>
    obtain ⟨hfirst, hrest⟩ := List.forall_mem_cons.mp hwrite
    have hlast := ih (h.perform hfirst) hrest
    rwa [Nat.add_assoc, ← cyclesOf_append] at hlast

/-- A page asked for, whatever transfer to sprite memory was under way, while none to video memory
is: over any events that write nothing, after so many cycles as many bytes of sprite memory are
those that were to be seen on the page, the others are still as they were, no other memory has
changed, and it goes on until all are copied. -/
theorem page_transfer_copies (b : Bus σ) (page : UInt8) {events : List Event}
    (hidle : b.dma.vram = none) (hwrite : ∀ e ∈ events, ∀ a v, e ≠ .write a v) :
    let last := (b.write 0xFF46 page).performAll events
    last.dma.ramBusy = decide (cyclesOf events < 160) ∧
      (∀ i : Fin 160, last.byte (.sprite i) =
        if i < cyclesOf events then b.peek (pageAddress page i) else b.byte (.sprite i)) ∧
      b.SameMemory last ∧ last.ppu.vram = b.ppu.vram ∧ (last.read 0xFF46).1 = page := by
  intro last
  have h : InPage b page (0 + cyclesOf events) last :=
    (inPage_write hidle page).performAll hwrite
  rw [Nat.zero_add] at h
  refine ⟨?_, fun i => h.sprites i i.isLt, h.memory, h.vram, ?_⟩
  · rw [Dma.ramBusy, h.transfer]
    by_cases hmore : cyclesOf events < 160 <;> simp [hmore]
  · rw [read_page]
    exact h.asked

theorem echo_page_restarted :
    let b := bare.performAll (.write 0xC005 0x42 :: .write 0xFF46 0xC1 ::
      List.replicate 10 .cycle)
    let last := (b.write 0xFF46 0xE0).performAll (List.replicate 160 .cycle)
    b.dma.ramBusy ∧ last.dma.ramBusy = false ∧ last.byte (.sprite 5) = 0x42 ∧
      (last.read 0xFF46).1 = 0xE0 := by
  intro b last
  have hidle : b.dma.vram = none := by decide +kernel
  have hbusy : b.dma.ramBusy := by decide +kernel
  have hbyte : b.peek (pageAddress 0xE0 5) = 0x42 := by decide +kernel
  have hwrite : ∀ e ∈ List.replicate 160 Event.cycle, ∀ a v, e ≠ .write a v := by
    intro e he
    rw [List.eq_of_mem_replicate he]
    nofun
  clear_value b
  obtain ⟨hdone, hcopied, -, -, hpage⟩ := page_transfer_copies b 0xE0 hidle hwrite
  rw [cyclesOf_replicate] at hdone hcopied
  exact ⟨hbusy, hdone, (hcopied 5).trans hbyte, hpage⟩

end Handheld.Bus
