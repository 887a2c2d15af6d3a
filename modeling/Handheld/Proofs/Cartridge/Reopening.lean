import Handheld.Proofs.Cartridge.SaveFile

/-!
A cartridge with a battery, taken out of one machine and put into another. Its memory is behind the
window again as it was, byte for byte and under every bank, if its store was closed without a fault.
-/

namespace Handheld

theorem BankController.nibbles_of_isOf {k : CartridgeKind} {c : BankController} (h : c.IsOf k)
    (hk : k.controller ≠ .mbc2) : c.nibbles? = none := by
  cases hnibbles : c.nibbles? with
  | none => rfl
  | some m =>
    have hkind : c.kind = .mbc2 := c.kind_eq_mbc2.mpr (by simp [hnibbles])
    exact absurd (h.1.symm.trans hkind) hk

namespace Cartridge

section Store
variable {σ : Type} [ExternalMemory σ] {c : Cartridge σ}
open ExternalMemory

theorem create_eq {rom : ByteArray} {header : Header} (h : Header.parse rom = .ok header)
    (storage : σ) : create rom storage = .ok
      { rom
        header
        controller := .ofKind header.kind
        storage :=
          if wantsRam header then (activate (setSize storage header.ramSize)).1 else storage
        hasRam := wantsRam header && (activate (setSize storage header.ramSize)).2.isNone } := by
  simp only [create, h, bind, Except.bind, pure, Except.pure]
  split
  case isTrue hwants => simp only [hwants, Bool.true_and]
  case isFalse hwants => simp [hwants]

theorem parse_of_create {rom : ByteArray} {storage : σ} (h : create rom storage = .ok c) :
    Header.parse rom = .ok c.header := by
  cases hparse : Header.parse rom with
  | error fault =>
    rw [create, hparse] at h
    cases h
  | ok header =>
    rw [create_eq hparse] at h
    obtain rfl := Except.ok.inj h
    rfl

theorem write_storage (c : Cartridge σ) (a : UInt16) (v : UInt8) :
    (c.write a v).hasRam = c.hasRam ∧ ((c.write a v).storage = c.storage ∨
      c.hasRam ∧ ∃ i, (c.write a v).storage = writeByte c.storage i v) := by
  unfold write
  split
  case isTrue => exact ⟨rfl, .inl rfl⟩
  split
  case isFalse => exact ⟨rfl, .inl rfl⟩
  unfold writeRam
  split
  case isFalse => exact ⟨rfl, .inl rfl⟩
  split
  case isFalse => exact ⟨rfl, .inl rfl⟩
  case isTrue hram =>
    dsimp only [BankController.writeExternal]
    split
    · exact ⟨rfl, .inl rfl⟩
    · exact ⟨rfl, .inr ⟨hram, _, rfl⟩⟩

theorem after_storage {I : σ → Prop} (hwrite : ∀ s i v, I s → I (writeByte s i v))
    (h : I c.storage) (history : History) :
    (c.after history).hasRam = c.hasRam ∧ I (c.after history).storage ∧
      (c.hasRam = false → (c.after history).storage = c.storage) := by
  induction history with
  | nil => exact ⟨rfl, h, fun _ => rfl⟩
  | cons w earlier ih =>
    obtain ⟨hram, hkept, hsame⟩ := ih
    obtain ⟨hstill, hstorage⟩ := (c.after earlier).write_storage w.address w.value
    refine ⟨hstill.trans hram, ?_, fun hnone => ?_⟩
    · rcases hstorage with hstorage | ⟨-, i, hstorage⟩
      · rwa [after, hstorage]
      · rw [after, hstorage]
        exact hwrite _ i w.value hkept
    · rcases hstorage with hstorage | ⟨hused, -⟩
      · exact hstorage.trans (hsame hnone)
      · rw [hram, hnone] at hused
        cases hused

theorem after_controls {controls : History} (h : ∀ w ∈ controls, w.address < 0x8000) :
    (c.after controls).hasRam = c.hasRam ∧ (c.after controls).storage = c.storage := by
  induction controls with
  | nil => exact ⟨rfl, rfl⟩
  | cons w earlier ih =>
    obtain ⟨hram, hstorage⟩ := ih fun w' hw' => h w' (List.mem_cons_of_mem _ hw')
    have hwrite : (c.after (w :: earlier)) = { c.after earlier with
        controller := (c.after earlier).controller.writeControl w.address w.value } :=
      if_pos (h w (List.mem_cons_self ..))
    rw [hwrite]
    exact ⟨hram, hstorage⟩

theorem read_external (c : Cartridge σ) {a : UInt16} (hlow : 0xA000 ≤ a) (hhigh : a < 0xC000)
    (hopen : c.controller.opened) (hnibbles : c.controller.nibbles? = none) :
    c.read a = c.controller.readExternal c.external a := by
  have hrom := not_program hlow
  rw [read, if_neg hrom.1, if_neg hrom.2, if_pos (by simp [hlow, hhigh]),
    BankController.readRam_opened hopen, hnibbles]

end Store

/-- Two cartridges with the same bytes in their stores, or both without any. -/
structure SharesMemory (c c' : Cartridge SaveFile) : Prop where
  hasRam : c'.hasRam = c.hasRam
  storage : c.hasRam → c.storage.active ∧ c'.storage.active ∧ c'.storage.data = c.storage.data

theorem SharesMemory.after_controls {c c' : Cartridge SaveFile} (h : c.SharesMemory c')
    {controls controls' : History} (hcontrols : ∀ w ∈ controls, w.address < 0x8000)
    (hcontrols' : ∀ w ∈ controls', w.address < 0x8000) :
    (c.after controls).SharesMemory (c'.after controls') := by
  obtain ⟨hram, hstorage⟩ := c.after_controls hcontrols
  obtain ⟨hram', hstorage'⟩ := c'.after_controls hcontrols'
  refine ⟨by rw [hram', hram, h.hasRam], ?_⟩
  rw [hram, hstorage, hstorage']
  exact h.storage

theorem SharesMemory.read {c c' : Cartridge SaveFile} (h : c.SharesMemory c')
    (hnibbles : c.controller.nibbles? = none) (hnibbles' : c'.controller.nibbles? = none)
    (hopen : c.controller.opened) (hopen' : c'.controller.opened)
    (hbank : c'.controller.ramBank = c.controller.ramBank) {a : UInt16} (hlow : 0xA000 ≤ a)
    (hhigh : a < 0xC000) : c'.read a = c.read a := by
  rw [c.read_external hlow hhigh hopen hnibbles, c'.read_external hlow hhigh hopen' hnibbles']
  cases hram : c.hasRam with
  | false =>
    have hram' : c'.hasRam = false := h.hasRam.trans hram
    rw [external, hram', external, hram]
    rfl
  | true =>
    have hram' : c'.hasRam = true := h.hasRam.trans hram
    obtain ⟨hactive, hactive', hdata⟩ := h.storage hram
    rw [external, hram', external, hram]
    simp only [if_true, BankController.readExternal, ExternalMemory.size, ExternalMemory.readByte,
      SaveFile.readByte, hactive, hactive', hdata, BankController.ramOffset, hbank]

/-- A new cartridge uses its store if it wants memory and the file can be loaded. -/
theorem create_store {rom : ByteArray} {medium : Medium} {c : Cartridge SaveFile}
    (h : create rom { medium } = .ok c) :
    let loaded := (SaveFile.sized c.header.ramSize medium).activate
    c.hasRam = (wantsRam c.header && loaded.2.isNone) ∧ c.storage.medium = medium ∧
      (c.hasRam → loaded = (c.storage, none)) := by
  intro loaded
  have hc := Except.ok.inj (h.symm.trans (create_eq (parse_of_create h) ({ medium } : SaveFile)))
  have hram : c.hasRam = (wantsRam c.header && loaded.2.isNone) := congrArg hasRam hc
  have hstorage : c.storage = if wantsRam c.header then loaded.1 else { medium } :=
    congrArg storage hc
  rw [hram, hstorage]
  refine ⟨rfl, ?_, fun hused => ?_⟩
  · split
    · rcases (SaveFile.sized c.header.ramSize medium).activate_cases with hloaded | ⟨_, hfailed⟩
      · exact congrArg (fun r => r.1.medium) hloaded
      · exact congrArg (fun r => r.1.medium) hfailed
    · rfl
  · obtain ⟨hwants, hnone⟩ := Bool.and_eq_true_iff.mp hused
    rw [if_pos hwants]
    exact Prod.ext rfl (Option.isNone_iff_eq_none.mp hnone)

theorem create_reopened {rom : ByteArray} {medium : Medium} {c : Cartridge SaveFile}
    (hcreate : create rom { medium } = .ok c) (history : History) {saved : SaveFile}
    (hrelease : (c.after history).release = .ok saved) :
    ∃ c', create rom saved.reopen = .ok c' ∧ c'.header = c.header ∧
      (c.after history).SharesMemory c' := by
  have hparse := parse_of_create hcreate
  obtain ⟨c', hcreate'⟩ : ∃ c', create rom saved.reopen = .ok c' := ⟨_, create_eq hparse _⟩
  have hheader : c'.header = c.header :=
    Except.ok.inj ((parse_of_create hcreate').symm.trans hparse)
  obtain ⟨hram, hmedium, hloaded⟩ := create_store hcreate
  obtain ⟨hram', -, hloaded'⟩ := create_store hcreate'
  rw [hheader] at hram' hloaded'
  refine ⟨c', hcreate', hheader, ?_⟩
  cases hused : c.hasRam with
  | false =>
    -- A store that could not be loaded was not written to, and cannot be loaded the next time.
    obtain ⟨hstill, -, hsame⟩ :=
      c.after_storage (I := fun _ => True) (fun _ _ _ _ => trivial) trivial history
    have hsaved : saved = c.storage := by
      rw [release, hstill, hused, if_neg Bool.false_ne_true, hsame hused] at hrelease
      exact (Except.ok.inj hrelease).symm
    rw [hsaved, hmedium, ← hram] at hram'
    exact ⟨hram'.trans hstill.symm, fun h => by simp [hstill, hused] at h⟩
  | true =>
    have hopen := hloaded hused
    obtain ⟨hstill, ⟨hkept, hactive⟩, -⟩ := c.after_storage
      (I := fun f => f.Kept c.header.ramSize ∧ f.active)
      (fun f i v h => ⟨h.1.write i v, (f.writeByte_active i v).trans h.2⟩)
      ⟨SaveFile.kept_of_activate hopen, (SaveFile.opened_of_activate hopen).1⟩ history
    rw [release, hstill, hused, if_pos rfl] at hrelease
    rcases hkept.deactivate_cases with
      ⟨closed, hclosed, hagain, hdata, hclean⟩ | ⟨-, -, fault, hfailed⟩
    · have hsaved : closed = saved := by
        simp only [ExternalMemory.deactivate, hclosed] at hrelease
        exact Except.ok.inj hrelease
      rw [hsaved] at hagain hdata hclean
      have hback := hagain.saved hclean
      have hwants : wantsRam c.header = true := (Bool.and_eq_true_iff.mp (hram ▸ hused)).1
      rw [hwants, hback] at hram'
      have hstorage : c'.storage = { saved with active := true } :=
        congrArg Prod.fst ((hloaded' hram').symm.trans hback)
      refine ⟨hram'.trans (hstill.trans hused).symm, fun _ => ⟨hactive, ?_, ?_⟩⟩
      · rw [hstorage]
      · rw [hstorage]
        exact hdata
    · simp only [ExternalMemory.deactivate, hfailed] at hrelease
      cases hrelease

end Cartridge

/-- An image that is a header alone, with a code for what is on the cartridge and one for the size
of its memory. -/
def headerImage (code ramCode : UInt8) : ByteArray :=
  ⟨(List.replicate 0x147 0 ++ [code, 0, ramCode] ++ List.replicate 6 0).toArray⟩

theorem parse_headerImage (code ramCode : UInt8) {kind : CartridgeKind}
    (h : CartridgeKind.ofCode? code = some kind) :
    ∃ header, Header.parse (headerImage code ramCode) = .ok header ∧ header.kind = kind ∧
      header.ramSize = Header.ramSizeOfCode ramCode := by
  have hcode : Header.field (headerImage code ramCode) 0x147 = code := rfl
  have hsize : (headerImage code ramCode).size = Header.endAddress := by
    simp only [headerImage, ByteArray.size, List.size_toArray, List.length_append,
      List.length_replicate]
    rfl
  refine ⟨_, by rw [Header.parse, hsize, if_neg (Nat.lt_irrefl _), hcode, h], rfl, ?_⟩
  have hram : Header.field (headerImage code ramCode) 0x149 = ramCode := rfl
  dsimp only
  rw [hram]

namespace Bus

/-- A cartridge whose store was closed without a fault, put into another machine. With the memory
enabled and the same bank selected there the window shows at every address what it would have shown
on the old machine, whatever was written before and whatever was on the file at first. -/
theorem window_after_reopening {rom : ByteArray} {medium : Medium} {b : Bus SaveFile}
    (hcreate : Cartridge.create rom { medium } = .ok b.cartridge)
    (hkind : b.cartridge.header.kind.controller ≠ .mbc2) (history : History) {saved : SaveFile}
    (hrelease : (b.after history).cartridge.release = .ok saved) :
    ∃ c, Cartridge.create rom saved.reopen = .ok c ∧
      ∀ b' : Bus SaveFile, b'.cartridge = c → ∀ controls controls' : History,
        (∀ w ∈ controls, w.address < 0x8000) → (∀ w ∈ controls', w.address < 0x8000) →
        let old := (b.after history).after controls
        let new := b'.after controls'
        old.cartridge.controller.ramEnabled → old.cartridge.controller.selectsMemory →
        new.cartridge.controller.ramEnabled → new.cartridge.controller.selectsMemory →
        new.cartridge.controller.ramBank = old.cartridge.controller.ramBank →
        ∀ a, 0xA000 ≤ a → a ≤ 0xBFFF → (new.read a).1 = (old.read a).1 := by
  rw [after_cartridge] at hrelease
  obtain ⟨c, hcreate', hheader, hshares⟩ := Cartridge.create_reopened hcreate history hrelease
  refine ⟨c, hcreate', fun b' hb' controls controls' hcontrols hcontrols' => ?_⟩
  intro old new henabled hmemory henabled' hmemory' hbank a hlow hhigh
  have hold : old.cartridge = (b.cartridge.after history).after controls := by
    rw [after_cartridge, after_cartridge]
  have hnew : new.cartridge = c.after controls' := by
    rw [after_cartridge, hb']
  have hstart : b.cartridge.controller.IsOf b.cartridge.header.kind :=
    (Cartridge.create_controller hcreate).2 ▸ BankController.isOf_ofKind _
  have hstart' : c.controller.IsOf b.cartridge.header.kind :=
    (Cartridge.create_controller hcreate').2 ▸ hheader ▸ BankController.isOf_ofKind _
  rw [read_window _ hlow (lt_of_le_window hhigh), read_window _ hlow (lt_of_le_window hhigh)]
  rw [hold] at henabled hmemory hbank ⊢
  rw [hnew] at henabled' hmemory' hbank ⊢
  exact (hshares.after_controls hcontrols hcontrols').read
    (BankController.nibbles_of_isOf
      (Cartridge.after_isOf (Cartridge.after_isOf hstart history) controls) hkind)
    (BankController.nibbles_of_isOf (Cartridge.after_isOf hstart' controls') hkind)
    (Bool.and_eq_true_iff.mpr ⟨henabled, hmemory⟩)
    (Bool.and_eq_true_iff.mpr ⟨henabled', hmemory'⟩) hbank hlow (lt_of_le_window hhigh)

theorem shortFile_after_reopening :
    ∃ (b : Bus SaveFile) (saved : SaveFile) (c : Cartridge SaveFile),
      Cartridge.create (headerImage 0x03 1) { medium := .file ⟨#[7]⟩ } = .ok b.cartridge ∧
        b.cartridge.header.kind.controller ≠ .mbc2 ∧
        (b.after [⟨0xA001, 0x99⟩, ⟨0x0000, 0x0A⟩]).cartridge.release = .ok saved ∧
        Cartridge.create (headerImage 0x03 1) saved.reopen = .ok c ∧
        ∀ b' : Bus SaveFile, b'.cartridge = c →
          ((b'.after [⟨0x0000, 0x0A⟩]).read 0xA801).1 = 0x99 := by
  obtain ⟨header, hparse, hmbc1, hramSize⟩ := parse_headerImage 0x03 1 rfl
  have hwants : Cartridge.wantsRam header = true := by
    simp [Cartridge.wantsRam, hmbc1, hramSize, Header.ramSizeOfCode]
  obtain ⟨loaded, hopen⟩ : ∃ loaded,
      (SaveFile.sized 0x800 (.file ⟨#[7]⟩)).activate = (loaded, none) := ⟨_, rfl⟩
  obtain ⟨hactive, hclean, hmedium⟩ := SaveFile.opened_of_activate hopen
  have hsize : ExternalMemory.size loaded = 0x800 := (SaveFile.kept_of_activate hopen).size
  let b : Bus SaveFile :=
    { model := .color
      cartridge :=
        { rom := headerImage 0x03 1
          header
          controller := .mbc1 {}
          storage := loaded
          hasRam := true } }
  have hcreate : Cartridge.create (headerImage 0x03 1) { medium := .file ⟨#[7]⟩ } =
      .ok b.cartridge := by
    have hloaded : ExternalMemory.activate
        (ExternalMemory.setSize ({ medium := .file ⟨#[7]⟩ } : SaveFile) header.ramSize) =
          (loaded, none) := by
      rw [hramSize]
      exact hopen
    rw [Cartridge.create_eq hparse, hloaded, hwants, hmbc1]
    rfl
  have hafter : (b.after [⟨0xA001, 0x99⟩, ⟨0x0000, 0x0A⟩]).cartridge =
      { b.cartridge with
        controller := .mbc1 { ramEnabled := true }
        storage := loaded.writeByte 1 0x99 } := by
    have hwrite : BankController.writeExternal (.mbc1 { ramEnabled := true }) loaded 0xA001 0x99 =
        loaded.writeByte 1 0x99 := by
      have hplace : BankController.ramOffset (.mbc1 { ramEnabled := true }) 0x800 0xA001 = 1 := rfl
      simp only [BankController.writeExternal, hsize, hplace]
      rfl
    rw [← hwrite]
    exact after_cartridge b _
  obtain ⟨saved, hclosed⟩ :=
    SaveFile.deactivate_of_write hactive hclean (.inr ⟨_, hmedium⟩) 1 0x99
  have hrelease : (b.after [⟨0xA001, 0x99⟩, ⟨0x0000, 0x0A⟩]).cartridge.release = .ok saved := by
    rw [hafter]
    simp only [Cartridge.release, ExternalMemory.deactivate, hclosed]
    rfl
  have hkind : b.cartridge.header.kind.controller ≠ .mbc2 := by simp [b, hmbc1]
  obtain ⟨c, hcreate', hread⟩ := window_after_reopening hcreate hkind _ hrelease
  refine ⟨b, saved, c, hcreate, hkind, hrelease, hcreate', fun b' hb' => ?_⟩
  have hheader : c.header = b.cartridge.header :=
    Except.ok.inj ((Cartridge.parse_of_create hcreate').symm.trans hparse)
  have hcontroller : c.controller = .mbc1 {} := by
    rw [(Cartridge.create_controller hcreate').2, hheader]
    exact congrArg BankController.ofKind hmbc1
  have hnew : (b'.after [⟨0x0000, 0x0A⟩]).cartridge.controller = .mbc1 { ramEnabled := true } := by
    rw [after_cartridge, hb']
    change c.controller.writeControl 0x0000 0x0A = _
    rw [hcontroller]
    rfl
  have hold : (b.after [⟨0xA001, 0x99⟩, ⟨0x0000, 0x0A⟩]).cartridge.controller =
      .mbc1 { ramEnabled := true } := congrArg Cartridge.controller hafter
  rw [hread b' hb' [] [⟨0x0000, 0x0A⟩] (by simp) (by simp) (hold ▸ rfl) (hold ▸ rfl) (hnew ▸ rfl)
    (hnew ▸ rfl) (hnew ▸ hold ▸ rfl) 0xA801 (by decide) (by decide)]
  change ((b.after _).read 0xA801).1 = 0x99
  rw [read_window _ (by decide) (by decide), hafter,
    Cartridge.read_external _ (by decide) (by decide) rfl rfl]
  have hexternal : Cartridge.external { b.cartridge with
        controller := .mbc1 { ramEnabled := true }
        storage := loaded.writeByte 1 0x99 } = some (loaded.writeByte 1 0x99) := rfl
  have hsize' : ExternalMemory.size (loaded.writeByte 1 0x99) = 0x800 :=
    (loaded.writeByte_size 1 0x99).trans hsize
  have hplace : BankController.ramOffset (.mbc1 { ramEnabled := true }) 0x800 0xA801 = 1 := rfl
  rw [hexternal]
  simp only [BankController.readExternal, hsize', hplace]
  have hinside : 1 < ExternalMemory.size loaded := by omega
  exact (SaveFile.readByte_writeByte hactive hinside 0x99 1).trans (if_pos rfl)

end Bus

namespace Cartridge

/-- A cartridge from an image that is written to, closed on a file that was missing, and built anew,
where the window at A000 shows another byte than before, with the memory enabled and the same bank
selected. -/
def Forgets (rom : ByteArray) (history controls : History) : Prop :=
  ∃ (c c' : Cartridge SaveFile) (saved : SaveFile),
    create rom { medium := .missing } = .ok c ∧ c.header.kind.ram ∧ c.header.kind.battery ∧
      (c.after history).release = .ok saved ∧ create rom saved.reopen = .ok c' ∧
      let old := c.after history
      let new := c'.after controls
      old.controller.ramEnabled ∧ new.controller.ramEnabled ∧
        new.controller.ramBank = old.controller.ramBank ∧ new.read 0xA000 ≠ old.read 0xA000

/-- Half bytes that a controller has of its own are no part of any store, and neither are the
registers of a clock. -/
theorem forgets_without_store :
    Forgets (headerImage 0x06 0) [⟨0xA000, 5⟩, ⟨0x0000, 0x0A⟩] [⟨0x0000, 0x0A⟩] ∧
    Forgets (headerImage 0x10 1)
      [⟨0x6000, 1⟩, ⟨0x6000, 0⟩, ⟨0xA000, 42⟩, ⟨0x4000, 8⟩, ⟨0x0000, 0x0A⟩]
      [⟨0x4000, 8⟩, ⟨0x0000, 0x0A⟩] := by
  constructor
  · obtain ⟨header, hparse, hkind, -⟩ := parse_headerImage 0x06 0 rfl
    have hwants : wantsRam header = false := by simp [wantsRam, hkind]
    have hcreate : ∀ f : SaveFile, create (headerImage 0x06 0) f = .ok
        { rom := headerImage 0x06 0
          header
          controller := .mbc2 {}
          storage := f
          hasRam := false } := by
      intro f
      rw [create_eq hparse, hwants, hkind]
      rfl
    refine ⟨_, _, _, hcreate _, ?_, ?_, rfl, hcreate _, rfl, rfl, .trans (b := 0) rfl rfl, ?_⟩
    · rw [hkind]
    · rw [hkind]
    · exact ne_of_eq_of_ne (b := 0xFF) rfl (ne_of_ne_of_eq (b := 0xF5) (by decide) rfl)
  · obtain ⟨header, hparse, hkind, hsize⟩ := parse_headerImage 0x10 1 rfl
    have hwants : wantsRam header = true := by simp [wantsRam, hkind, hsize, Header.ramSizeOfCode]
    have hcreate : create (headerImage 0x10 1) ({ medium := .missing } : SaveFile) = .ok
        { rom := headerImage 0x10 1
          header
          controller := .mbc3 {}
          storage := (SaveFile.sized header.ramSize .missing).activate.1
          hasRam := true } := by
      rw [create_eq hparse, hwants, hkind]
      rfl
    refine ⟨_, _, _, hcreate, ?_, ?_, rfl, hcreate, rfl, rfl, .trans (b := 0) rfl rfl, ?_⟩
    · rw [hkind]
    · rw [hkind]
    · exact ne_of_eq_of_ne (b := 0xC0) rfl (ne_of_ne_of_eq (b := 0xEA) (by decide) rfl)

end Cartridge

end Handheld
