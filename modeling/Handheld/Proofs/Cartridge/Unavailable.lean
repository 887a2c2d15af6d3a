import Handheld.Proofs.Cartridge.Reopening

/-!
A cartridge whose store could not be opened when it was built. It does without: it answers as one
whose image asks for no memory, and leaves the store as the attempt left it.
-/

namespace Handheld

namespace Header

def withoutMemory (rom : ByteArray) : ByteArray := setByte rom 0x149 0

variable {rom : ByteArray}

theorem size_of_parse {header : Header} (h : parse rom = .ok header) : endAddress ≤ rom.size := by
  by_contra hshort
  rw [parse, if_pos (Nat.lt_of_not_le hshort)] at h
  cases h

theorem byteAt_withoutMemory (h : endAddress ≤ rom.size) {i : Nat} (hi : i ≠ 0x149)
    (fallback : UInt8) : byteAt (withoutMemory rom) i fallback = byteAt rom i fallback := by
  have hplace : 0x149 < rom.size := by simp only [endAddress] at h; omega
  rw [withoutMemory, byteAt_setByte rom hplace, if_neg hi.symm]

theorem field_withoutMemory (h : endAddress ≤ rom.size) {i : Nat} (hi : i ≠ 0x149) :
    field (withoutMemory rom) i = field rom i := byteAt_withoutMemory h hi 0

theorem readTitle_withoutMemory (h : endAddress ≤ rom.size) :
    readTitle (withoutMemory rom) = readTitle rom := by
  have hbytes : ∀ length ≤ 16,
      (List.range length).map (fun i => field (withoutMemory rom) (0x134 + i)) =
        (List.range length).map fun i => field rom (0x134 + i) := by
    intro length hlength
    refine List.map_congr_left fun i hi => field_withoutMemory h ?_
    have hlt := List.mem_range.mp hi
    omega
  unfold readTitle
  rw [field_withoutMemory h (by decide)]
  dsimp only
  rw [hbytes _ (by split <;> decide)]

theorem parse_withoutMemory {header : Header} (h : parse rom = .ok header) :
    parse (withoutMemory rom) = .ok { header with ramSize := 0 } := by
  have hsize := size_of_parse h
  have hplace : 0x149 < rom.size := by simp only [endAddress] at hsize; omega
  have hcleared : field (withoutMemory rom) 0x149 = 0 := by
    rw [field, withoutMemory, byteAt_setByte rom hplace, if_pos rfl]
  have hkept := fun i => field_withoutMemory (i := i) hsize
  unfold parse at h ⊢
  rw [if_neg (Nat.not_lt.mpr hsize)] at h
  rw [withoutMemory, size_setByte, ← withoutMemory, if_neg (Nat.not_lt.mpr hsize),
    hkept 0x147 (by decide)]
  split at h
  case h_1 => cases h
  case h_2 kind hkind =>
    obtain rfl := Except.ok.inj h
    simp only [hcleared, readTitle_withoutMemory hsize, hkept 0x143 (by decide),
      hkept 0x146 (by decide), hkept 0x148 (by decide), hkept 0x14A (by decide),
      hkept 0x14B (by decide), hkept 0x14C (by decide), hkept 0x14D (by decide),
      hkept 0x14E (by decide), hkept 0x14F (by decide)]
    rfl

end Header

inductive Use where
  | read (address : UInt16)
  | write (address : UInt16) (v : UInt8)
  | persist
  deriving DecidableEq, Repr

namespace BankController

def useAlone (c : BankController) : Use → BankController
  | .write a v =>
    if a < 0x8000 then c.writeControl a v
    else if 0xA000 ≤ a && a < 0xC000 && !c.writesExternal then c.writeInternal a v
    else c
  | _ => c

theorem readRam_none {σ τ : Type} [ExternalMemory σ] [ExternalMemory τ] (c : BankController)
    (a : UInt16) : c.readRam (none : Option σ) a = c.readRam (none : Option τ) a := by
  unfold readRam
  split
  · rfl
  · cases c <;> rfl

end BankController

namespace Cartridge

variable {σ τ : Type} [ExternalMemory σ] [ExternalMemory τ]

/-- A read leaves the cartridge as it is; what it answers is `Cartridge.read`. -/
def use (c : Cartridge σ) : Use → Cartridge σ
  | .read _ => c
  | .write a v => c.write a v
  | .persist => c.persist.1

def useAll (c : Cartridge σ) (uses : List Use) : Cartridge σ := uses.foldl use c

def imagePlace? (c : Cartridge σ) (a : UInt16) : Option Nat :=
  if a < 0x4000 then some a.toNat
  else if a < 0x8000 then some (c.bankedOffset a)
  else none

theorem persist_of_absent {c : Cartridge σ} (h : c.hasRam = false) : c.persist = (c, none) := by
  simp [persist, h]

def reachesStore (c : Cartridge σ) (a : UInt16) : Bool :=
  0xA000 ≤ a && a < 0xC000 && c.controller.writesExternal && c.hasRam

/-- A write changes the controller as it would without a store, and beside it the store alone. -/
theorem write_eq (c : Cartridge σ) (a : UInt16) (v : UInt8) : c.write a v =
    { c with
      controller := c.controller.useAlone (.write a v)
      storage :=
        if c.reachesStore a then c.controller.writeExternal c.storage a v else c.storage } := by
  unfold write BankController.useAlone reachesStore
  by_cases hlow : a < 0x8000
  · have hbelow : ¬0xA000 ≤ a := fun h => (not_program h).2 hlow
    simp [hlow, hbelow]
  by_cases hwindow : 0xA000 ≤ a ∧ a < 0xC000
  · obtain ⟨rom, header, controller, storage, used⟩ := c
    cases hexternal : controller.writesExternal <;> cases used <;>
      simp [hlow, hwindow, writeRam, hexternal]
  · have hother : (decide (0xA000 ≤ a) && decide (a < 0xC000)) = false := by simpa using hwindow
    simp [hlow, hother]

theorem use_of_absent {c : Cartridge σ} (h : c.hasRam = false) (u : Use) :
    c.use u = { c with controller := c.controller.useAlone u } := by
  cases u with
  | read a => rfl
  | persist => rw [use, persist_of_absent h]; rfl
  | write a v =>
    have hreaches : c.reachesStore a = false := by simp [reachesStore, h]
    rw [use, write_eq, hreaches]
    rfl

theorem useAll_of_absent {c : Cartridge σ} (h : c.hasRam = false) (uses : List Use) :
    c.useAll uses = { c with controller := uses.foldl BankController.useAlone c.controller } := by
  induction uses generalizing c with
  | nil => rfl
  | cons u rest ih =>
    have huse := use_of_absent h u
    have hrest := ih (c := { c with controller := c.controller.useAlone u }) h
    rw [← huse] at hrest
    exact hrest.trans (by rw [huse]; rfl)

omit [ExternalMemory σ] [ExternalMemory τ] in
theorem imagePlace?_congr {c : Cartridge σ} {c' : Cartridge τ} (hsize : c.rom.size = c'.rom.size)
    (hcontroller : c.controller = c'.controller) (a : UInt16) :
    c.imagePlace? a = c'.imagePlace? a := by
  unfold imagePlace? bankedOffset romBanks
  rw [hsize, hcontroller]

theorem read_eq (c : Cartridge σ) (a : UInt16) : c.read a =
    match c.imagePlace? a with
    | some i => byteAt c.rom i 0xFF
    | none => if 0xA000 ≤ a && a < 0xC000 then c.controller.readRam c.external a else 0xFF := by
  unfold read imagePlace?
  split
  · rfl
  split <;> rfl

theorem read_of_absent {c : Cartridge σ} {c' : Cartridge τ} (hnone : c.hasRam = false)
    (hnone' : c'.hasRam = false) (hcontroller : c.controller = c'.controller) {a : UInt16}
    (hplace : c.imagePlace? a = c'.imagePlace? a)
    (himage : ∀ i, c.imagePlace? a = some i → byteAt c.rom i 0xFF = byteAt c'.rom i 0xFF) :
    c.read a = c'.read a := by
  have hexternal : c.external = none := by simp [external, hnone]
  have hexternal' : c'.external = none := by simp [external, hnone']
  rw [read_eq, read_eq, ← hplace]
  cases hshown : c.imagePlace? a with
  | some i => exact himage i hshown
  | none =>
    simp only [hexternal, hexternal', hcontroller, BankController.readRam_none (σ := σ) (τ := τ)]

/-- A cartridge whose store cannot be opened is built all the same, and from then on has nothing to
do with the store: whatever is read, written and saved, and whatever the store would do, it answers
as one built with any other store from the image with the code for the size of the memory cleared,
but for that byte of the image. -/
theorem unavailable_as_absent {rom : ByteArray} {storage left : σ} {header : Header} {fault : Fault}
    (hparse : Header.parse rom = .ok header) (hwants : wantsRam header)
    (hfails : ExternalMemory.activate (ExternalMemory.setSize storage header.ramSize) =
      (left, some fault)) :
    ∃ c, create rom storage = .ok c ∧ c.hasRam = false ∧
      (∀ uses, let now := c.useAll uses
        now.storage = left ∧ now.hasRam = false ∧ now.persist = (now, none) ∧
          now.release = .ok left ∧ ∀ operations : ExternalMemory σ,
            @useAll σ operations c uses = now ∧ @persist σ operations now = (now, none) ∧
              ∀ a, @read σ operations now a = now.read a) ∧
      ∀ {τ : Type} [ExternalMemory τ] (other : τ), ∃ c',
        create (Header.withoutMemory rom) other = .ok c' ∧ c'.hasRam = false ∧
          ∀ uses, let now := c.useAll uses
            let now' := c'.useAll uses
            now.controller = now'.controller ∧ now'.hasRam = false ∧
              now'.persist = (now', none) ∧
              ∀ a, now.imagePlace? a = now'.imagePlace? a ∧
                (now.imagePlace? a ≠ some 0x149 → now.read a = now'.read a) := by
  let c : Cartridge σ :=
    { rom, header, controller := .ofKind header.kind, storage := left, hasRam := false }
  have hcreate : create rom storage = .ok c := by
    rw [create_eq hparse, hfails, hwants]
    rfl
  have hlong := Header.size_of_parse hparse
  have hnow : ∀ uses, c.useAll uses =
      { c with controller := uses.foldl BankController.useAlone c.controller } :=
    useAll_of_absent rfl
  refine ⟨c, hcreate, rfl, fun uses => ?_, fun {τ} _ other => ?_⟩
  · intro now
    have hnone : now.hasRam = false := congrArg hasRam (hnow uses)
    have hstorage : now.storage = left := congrArg Cartridge.storage (hnow uses)
    refine ⟨hstorage, hnone, persist_of_absent hnone, ?_, fun operations => ⟨?_, ?_, fun a => ?_⟩⟩
    · rw [release, hnone, hstorage]
      rfl
    · exact (@useAll_of_absent σ operations c rfl uses).trans (hnow uses).symm
    · exact @persist_of_absent σ operations now hnone
    · exact @read_of_absent σ σ operations _ now now hnone hnone rfl a rfl fun _ _ => rfl
  · let c' : Cartridge τ :=
      { rom := Header.withoutMemory rom
        header := { header with ramSize := 0 }
        controller := .ofKind header.kind
        storage := other
        hasRam := false }
    have hunwanted : wantsRam { header with ramSize := 0 } = false := by simp [wantsRam]
    have hcreate' : create (Header.withoutMemory rom) other = .ok c' := by
      rw [create_eq (Header.parse_withoutMemory hparse), hunwanted]
      rfl
    refine ⟨c', hcreate', rfl, fun uses => ?_⟩
    intro now now'
    have hnow' : now' =
        { c' with controller := uses.foldl BankController.useAlone c'.controller } :=
      useAll_of_absent rfl uses
    have hnone : now.hasRam = false := congrArg hasRam (hnow uses)
    have hnone' : now'.hasRam = false := congrArg hasRam hnow'
    have hcontroller : now.controller = now'.controller :=
      (congrArg controller (hnow uses)).trans (congrArg controller hnow').symm
    have hrom : now.rom = rom := congrArg Cartridge.rom (hnow uses)
    have hrom' : now'.rom = Header.withoutMemory rom := congrArg Cartridge.rom hnow'
    have hplace : ∀ a, now.imagePlace? a = now'.imagePlace? a :=
      imagePlace?_congr (by rw [hrom, hrom', Header.withoutMemory, size_setByte]) hcontroller
    refine ⟨hcontroller, hnone', persist_of_absent hnone', fun a => ⟨hplace a, fun hother => ?_⟩⟩
    refine read_of_absent hnone hnone' hcontroller (hplace a) fun i hi => ?_
    rw [hrom, hrom', Header.byteAt_withoutMemory hlong]
    rintro rfl
    exact hother hi

theorem refusedStore_as_absent :
    let storage : Unreliable VolatileRam :=
      { inner := {}, refusesActivate := some (.io "permission denied") }
    let uses : List Use := [.write 0x0000 0x0A, .write 0xA000 42, .persist]
    ∃ (header : Header) (left : Unreliable VolatileRam) (c : Cartridge (Unreliable VolatileRam))
        (c' : Cartridge VolatileRam),
      Header.parse (headerImage 0x03 2) = .ok header ∧ wantsRam header ∧
        ExternalMemory.activate (ExternalMemory.setSize storage header.ramSize) =
          (left, some (.io "permission denied")) ∧
        create (headerImage 0x03 2) storage = .ok c ∧ c.hasRam = false ∧
        (c.useAll uses).storage = left ∧ (c.useAll uses).persist = (c.useAll uses, none) ∧
        create (Header.withoutMemory (headerImage 0x03 2)) ({} : VolatileRam) = .ok c' ∧
        c'.hasRam = false ∧ (c.useAll uses).read 0xA000 = (c'.useAll uses).read 0xA000 := by
  intro storage uses
  obtain ⟨header, hparse, hkind, hsize⟩ := parse_headerImage 0x03 2 rfl
  have hwants : wantsRam header = true := by
    simp [wantsRam, hkind, hsize, Header.ramSizeOfCode]
  obtain ⟨left, hfails⟩ : ∃ left,
      ExternalMemory.activate (ExternalMemory.setSize storage header.ramSize) =
        (left, some (.io "permission denied")) := ⟨_, rfl⟩
  obtain ⟨c, hcreate, hram, hafter, habsent⟩ := unavailable_as_absent hparse hwants hfails
  obtain ⟨hstorage, -, hpersist, -⟩ := hafter uses
  obtain ⟨c', hcreate', hram', hagree⟩ := habsent ({} : VolatileRam)
  obtain ⟨-, -, -, hreads⟩ := hagree uses
  refine ⟨header, left, c, c', hparse, hwants, hfails, hcreate, hram, hstorage, hpersist, hcreate',
    hram', (hreads 0xA000).2 ?_⟩
  exact (Option.some_ne_none _).symm

end Cartridge
end Handheld
