import Handheld.Proofs.Cartridge.Unavailable

/-!
Saving a cartridge whose store refuses. A store that could not be closed goes on being used as if
nothing had been saved; one that was closed and could not be opened again shows and takes nothing.
-/

namespace Handheld

section
open ExternalMemory

/-- What a cartridge relies on in a store. While it is open it is an array of bytes, and a closing
that fails leaves it as it was. -/
structure Dependable {σ : Type} [ExternalMemory σ] (isOpen : σ → Prop) : Prop where
  size_setSize (s : σ) (n : Nat) : size (setSize s n) = n
  size_writeByte (s : σ) (i : Nat) (v : UInt8) : size (writeByte s i v) = size s
  size_activate (s : σ) : size (activate s).1 = size s
  size_deactivate (s : σ) : size (deactivate s).1 = size s
  opened {s t : σ} : activate s = (t, none) → isOpen t
  notClosed {s t : σ} {fault : Fault} : deactivate s = (t, some fault) →
    (isOpen t ↔ isOpen s) ∧ ∀ i, readByte t i = readByte s i
  write_open {s : σ} (i : Nat) (v : UInt8) : isOpen s → isOpen (writeByte s i v)
  readByte_writeByte {s : σ} {i : Nat} (v : UInt8) (j : Nat) : isOpen s → i < size s →
    readByte (writeByte s i v) j = if i = j then v else readByte s j

/-- A store that is closed stays so until it is opened, and shows and takes nothing. -/
structure Silent {σ : Type} [ExternalMemory σ] (isOpen : σ → Prop) : Prop where
  closed {s t : σ} : deactivate s = (t, none) → ¬isOpen t
  notOpened {s t : σ} {fault : Fault} : activate s = (t, some fault) → ¬isOpen s → ¬isOpen t
  readByte {s : σ} (i : Nat) : ¬isOpen s → readByte s i = 0xFF
  writeByte {s : σ} (i : Nat) (v : UInt8) : ¬isOpen s → writeByte s i v = s

end

namespace VolatileRam

theorem writeByte_eq {r : VolatileRam} (h : r.active) (i : Nat) (v : UInt8) :
    r.writeByte i v = { r with data := setByte r.data i v } := if_pos h

theorem dependable : Dependable fun r : VolatileRam => r.active where
  size_setSize r n := size_resize r.data n
  size_writeByte r i v := by
    change (r.writeByte i v).data.size = r.data.size
    unfold writeByte
    split
    · exact size_setByte ..
    · rfl
  size_activate _ := rfl
  size_deactivate _ := rfl
  opened h := (Prod.mk.inj h).1 ▸ rfl
  notClosed h := nomatch (Prod.mk.inj h).2
  write_open {r} i v hactive := (congrArg active (writeByte_eq hactive i v)).trans hactive
  readByte_writeByte {r i} v j hactive hi := by
    change (r.writeByte i v).readByte j = if i = j then v else r.readByte j
    rw [writeByte_eq hactive, readByte, if_pos hactive, readByte, if_pos hactive]
    exact byteAt_setByte r.data hi v j 0xFF

theorem silent : Silent fun r : VolatileRam => r.active where
  closed h := (Prod.mk.inj h).1 ▸ Bool.false_ne_true
  notOpened h := nomatch (Prod.mk.inj h).2
  readByte _ hclosed := if_neg hclosed
  writeByte _ _ hclosed := if_neg hclosed

end VolatileRam

namespace SaveFile

theorem deactivate_cases (f : SaveFile) :
    (∃ saved, f.deactivate = (saved, none) ∧ saved.active = false ∧ saved.data = f.data) ∨
      ∃ fault, f.deactivate = (f, some fault) := by
  unfold deactivate
  split
  case isFalse => exact .inl ⟨_, rfl, rfl, rfl⟩
  case isTrue =>
    rcases f.flush_cases with hflush | ⟨fault, hflush⟩
    · rw [hflush]
      exact .inl ⟨_, rfl, rfl, rfl⟩
    · rw [hflush]
      exact .inr ⟨fault, rfl⟩

theorem readByte_of_readOnly {n : Nat} {contents : ByteArray} {f : SaveFile}
    (h : (sized n (.readOnly contents)).activate = (f, none)) {i : Nat} (hi : i < n)
    (hinside : i < contents.size) : f.readByte i = contents[i] := by
  have hdata : f.data = overlay contents (sized n (.readOnly contents)).data :=
    (congrArg (fun r => r.1.data) h).symm
  have hplace : i < (sized n (.readOnly contents)).data.size := by rwa [sized_size]
  have hplace' : i < (overlay contents (sized n (.readOnly contents)).data).size := by
    rwa [size_overlay]
  rw [readByte, if_pos (opened_of_activate h).1, hdata, byteAt_of_lt hplace',
    getElem_overlay _ _ hplace hplace', dif_pos hinside]

theorem deactivate_of_readOnly {f : SaveFile} {contents : ByteArray} (hactive : f.active) {i : Nat}
    (hi : i < f.data.size) {v : UInt8} (hother : f.readByte i ≠ v)
    (hmedium : f.medium = .readOnly contents) :
    (f.writeByte i v).deactivate = (f.writeByte i v, some (.io "permission denied")) := by
  have hwrite : f.writeByte i v = { f with data := setByte f.data i v, dirty := true } := by
    rcases f.writeByte_cases i v with ⟨-, -, hwrite⟩ | hsame
    · exact hwrite
    · have hbyte := readByte_writeByte hactive hi v i
      rw [hsame, if_pos rfl] at hbyte
      exact absurd hbyte hother
  rw [hwrite, deactivate, hactive, Bool.and_self, if_pos rfl, flush, hmedium]

theorem dependable : Dependable fun f : SaveFile => f.active where
  size_setSize f n := size_resize f.data n
  size_writeByte := writeByte_size
  size_activate f := by
    change f.activate.1.data.size = f.data.size
    rcases f.activate_cases with hloaded | ⟨fault, hfailed⟩
    · rw [hloaded]
      exact f.medium.size_load f.data
    · rw [hfailed]
  size_deactivate f := by
    change f.deactivate.1.data.size = f.data.size
    rcases f.deactivate_cases with ⟨saved, hsaved, -, hdata⟩ | ⟨fault, hfailed⟩
    · rw [hsaved, hdata]
    · rw [hfailed]
  opened {f _} h := by
    rcases f.activate_cases with hloaded | ⟨fault, hfailed⟩
    · obtain rfl := (Prod.mk.inj (hloaded.symm.trans h)).1
      rfl
    · cases (Prod.mk.inj (hfailed.symm.trans h)).2
  notClosed {f _ _} h := by
    rcases f.deactivate_cases with ⟨saved, hsaved, -⟩ | ⟨fault, hfailed⟩
    · cases (Prod.mk.inj (hsaved.symm.trans h)).2
    · obtain rfl := (Prod.mk.inj (hfailed.symm.trans h)).1
      exact ⟨.rfl, fun _ => rfl⟩
  write_open {f} i v hactive := (f.writeByte_active i v).trans hactive
  readByte_writeByte v j hactive hi := readByte_writeByte hactive hi v j

theorem silent : Silent fun f : SaveFile => f.active where
  closed {f _} h := by
    rcases f.deactivate_cases with ⟨saved, hsaved, hinactive, -⟩ | ⟨fault, hfailed⟩
    · obtain rfl := (Prod.mk.inj (hsaved.symm.trans h)).1
      simp [hinactive]
    · cases (Prod.mk.inj (hfailed.symm.trans h)).2
  notOpened {f _ _} h := by
    rcases f.activate_cases with hloaded | ⟨fault, hfailed⟩
    · cases (Prod.mk.inj (hloaded.symm.trans h)).2
    · obtain rfl := (Prod.mk.inj (hfailed.symm.trans h)).1
      exact id
  readByte _ hclosed := if_neg hclosed
  writeByte {f} i v hclosed := by
    rcases f.writeByte_cases i v with ⟨hactive, -⟩ | hwrite
    · exact absurd hactive hclosed
    · exact hwrite

end SaveFile

section Composite
variable {σ τ : Type} [ExternalMemory σ] [ExternalMemory τ] {isOpen : σ → Prop} {isOpen' : τ → Prop}

theorem Dependable.unreliable (h : Dependable isOpen) :
    Dependable fun u : Unreliable σ => isOpen u.inner where
  size_setSize u n := h.size_setSize u.inner n
  size_writeByte u i v := h.size_writeByte u.inner i v
  size_activate u := by
    obtain ⟨inner, _ | fault, _⟩ := u
    · exact h.size_activate inner
    · rfl
  size_deactivate u := by
    obtain ⟨inner, _, _ | fault⟩ := u
    · exact h.size_deactivate inner
    · rfl
  opened {u t} hopen := by
    obtain ⟨inner, _ | fault, _⟩ := u
    · obtain ⟨hleft, hnone⟩ := Prod.mk.inj hopen
      rw [← hleft]
      exact h.opened (Prod.ext rfl hnone)
    · cases (Prod.mk.inj hopen).2
  notClosed {u t _} hclose := by
    obtain ⟨inner, _, _ | fault⟩ := u
    · obtain ⟨hleft, hfault⟩ := Prod.mk.inj hclose
      rw [← hleft]
      exact h.notClosed (Prod.ext rfl hfault)
    · exact (Prod.mk.inj hclose).1 ▸ ⟨.rfl, fun _ => rfl⟩
  write_open i v hopen := h.write_open i v hopen
  readByte_writeByte v j hopen hi := h.readByte_writeByte v j hopen hi

theorem Silent.unreliable (h : Silent isOpen) :
    Silent fun u : Unreliable σ => isOpen u.inner where
  closed {u t} hclose := by
    obtain ⟨inner, _, _ | fault⟩ := u
    · obtain ⟨hleft, hnone⟩ := Prod.mk.inj hclose
      rw [← hleft]
      exact h.closed (Prod.ext rfl hnone)
    · cases (Prod.mk.inj hclose).2
  notOpened {u t _} hopen := by
    obtain ⟨inner, _ | fault, _⟩ := u
    · obtain ⟨hleft, hfault⟩ := Prod.mk.inj hopen
      rw [← hleft]
      exact h.notOpened (Prod.ext rfl hfault)
    · exact (Prod.mk.inj hopen).1 ▸ id
  readByte i hclosed := h.readByte i hclosed
  writeByte {u} i v hclosed :=
    congrArg (fun inner : σ => ({ u with inner } : Unreliable σ)) (h.writeByte i v hclosed)

theorem Dependable.sum (h : Dependable isOpen) (h' : Dependable isOpen') :
    Dependable (Sum.elim isOpen isOpen') where
  size_setSize
    | .inl s, n => h.size_setSize s n
    | .inr t, n => h'.size_setSize t n
  size_writeByte
    | .inl s, i, v => h.size_writeByte s i v
    | .inr t, i, v => h'.size_writeByte t i v
  size_activate
    | .inl s => h.size_activate s
    | .inr t => h'.size_activate t
  size_deactivate
    | .inl s => h.size_deactivate s
    | .inr t => h'.size_deactivate t
  opened {s _} hopen := by
    cases s <;> obtain ⟨hleft, hnone⟩ := Prod.mk.inj hopen <;> rw [← hleft]
    · exact h.opened (Prod.ext rfl hnone)
    · exact h'.opened (Prod.ext rfl hnone)
  notClosed {s _ _} hclose := by
    cases s <;> obtain ⟨hleft, hfault⟩ := Prod.mk.inj hclose <;> rw [← hleft]
    · exact h.notClosed (Prod.ext rfl hfault)
    · exact h'.notClosed (Prod.ext rfl hfault)
  write_open {s} i v hopen := by
    cases s with
    | inl s => exact h.write_open i v hopen
    | inr t => exact h'.write_open i v hopen
  readByte_writeByte {s _} v j hopen hi := by
    cases s with
    | inl s => exact h.readByte_writeByte v j hopen hi
    | inr t => exact h'.readByte_writeByte v j hopen hi

theorem Silent.sum (h : Silent isOpen) (h' : Silent isOpen') :
    Silent (Sum.elim isOpen isOpen') where
  closed {s _} hclose := by
    cases s <;> obtain ⟨hleft, hnone⟩ := Prod.mk.inj hclose <;> rw [← hleft]
    · exact h.closed (Prod.ext rfl hnone)
    · exact h'.closed (Prod.ext rfl hnone)
  notOpened {s _ _} hopen := by
    cases s <;> obtain ⟨hleft, hfault⟩ := Prod.mk.inj hopen <;> rw [← hleft]
    · exact h.notOpened (Prod.ext rfl hfault)
    · exact h'.notOpened (Prod.ext rfl hfault)
  readByte {s} i hclosed := by
    cases s with
    | inl s => exact h.readByte i hclosed
    | inr t => exact h'.readByte i hclosed
  writeByte {s} i v hclosed := by
    cases s with
    | inl s => exact congrArg Sum.inl (h.writeByte i v hclosed)
    | inr t => exact congrArg Sum.inr (h'.writeByte i v hclosed)

end Composite

section
variable {σ : Type} [ExternalMemory σ] {isOpen : σ → Prop} {s t : σ}
open ExternalMemory

structure SameBytes (isOpen : σ → Prop) (s t : σ) : Prop where
  left : isOpen s
  right : isOpen t
  size : size t = size s
  bytes (i : Nat) : readByte t i = readByte s i

namespace BankController
variable (c : BankController)

theorem readRam_same (h : SameBytes isOpen s t) (a : UInt16) :
    c.readRam (some t) a = c.readRam (some s) a := by
  have hexternal : c.readExternal (some t) a = c.readExternal (some s) a := by
    simp only [readExternal, h.size, h.bytes]
  unfold readRam
  split
  · rfl
  · cases c <;> simp only [hexternal]

theorem writeExternal_same (hlaws : Dependable isOpen) (h : SameBytes isOpen s t) (a : UInt16)
    (v : UInt8) : SameBytes isOpen (c.writeExternal s a v) (c.writeExternal t a v) := by
  unfold writeExternal
  rw [h.size]
  by_cases hzero : size s = 0
  · simpa only [hzero, if_true] using h
  · simp only [hzero, if_false]
    have hplace : c.ramOffset (size s) a < size s := Nat.mod_lt _ (Nat.pos_of_ne_zero hzero)
    have hplace' : c.ramOffset (size s) a < size t := h.size.symm ▸ hplace
    refine ⟨hlaws.write_open _ v h.left, hlaws.write_open _ v h.right, ?_, fun j => ?_⟩
    · rw [hlaws.size_writeByte, hlaws.size_writeByte, h.size]
    · rw [hlaws.readByte_writeByte v j h.right hplace',
        hlaws.readByte_writeByte v j h.left hplace, h.bytes]

theorem readRam_unopened {c : BankController} (h : c.opened = false) (ram ram' : Option σ)
    (a : UInt16) : c.readRam ram a = c.readRam ram' a := by
  unfold readRam
  split
  case isTrue => rfl
  case isFalse hdisabled =>
    have henabled : c.ramEnabled = true := by simpa using hdisabled
    rw [opened, henabled, Bool.true_and] at h
    cases c with
    | mbc3 s =>
      rw [selectsMemory_mbc3] at h
      have hclock : s.selectsClock = true := by simpa using h
      simp only [hclock, if_true]
    | romOnly | mbc1 | mbc2 | mbc5 => cases h

theorem writeExternal_cases (s : σ) (a : UInt16) (v : UInt8) :
    c.writeExternal s a v = s ∨ ∃ i, c.writeExternal s a v = writeByte s i v := by
  dsimp only [writeExternal]
  split
  · exact .inl rfl
  · exact .inr ⟨_, rfl⟩

theorem writeExternal_size (hlaws : Dependable isOpen) (s : σ) (a : UInt16) (v : UInt8) :
    size (c.writeExternal s a v) = size s := by
  rcases c.writeExternal_cases s a v with hwrite | ⟨i, hwrite⟩ <;> rw [hwrite]
  exact hlaws.size_writeByte ..

theorem writeExternal_open (hlaws : Dependable isOpen) (h : isOpen s) (a : UInt16) (v : UInt8) :
    isOpen (c.writeExternal s a v) := by
  rcases c.writeExternal_cases s a v with hwrite | ⟨i, hwrite⟩ <;> rw [hwrite]
  · exact h
  · exact hlaws.write_open i v h

theorem writeExternal_closed (h : ∀ i v, writeByte s i v = s) (a : UInt16) (v : UInt8) :
    c.writeExternal s a v = s := by
  rcases c.writeExternal_cases s a v with hwrite | ⟨i, hwrite⟩
  · exact hwrite
  · exact hwrite.trans (h i v)

theorem readExternal_closed (h : ∀ i, readByte s i = 0xFF) (a : UInt16) :
    c.readExternal (some s) a = 0xFF := by
  simp only [readExternal, h, ite_self]

theorem readExternal_writeExternal (hlaws : Dependable isOpen) (h : isOpen s) (hsize : 0 < size s)
    (a : UInt16) (v : UInt8) : c.readExternal (some (c.writeExternal s a v)) a = v := by
  have hplace : c.ramOffset (size s) a < size s := Nat.mod_lt _ hsize
  simp only [readExternal, writeExternal_size c hlaws, if_neg (Nat.ne_of_gt hsize)]
  simp only [writeExternal, if_neg (Nat.ne_of_gt hsize)]
  rw [hlaws.readByte_writeByte v _ h hplace, if_pos rfl]

theorem useAlone_nibbles {c : BankController} (h : c.nibbles? = none) (u : Use) :
    (c.useAlone u).nibbles? = none := by
  cases u with
  | read | persist => exact h
  | write a v =>
    rw [useAlone]
    split
    · exact (c.writeControl_nibbles a v).2.trans h
    split
    · rw [(c.writeInternal_nibbles a v).2, h]
      exact ite_self none
    · exact h

end BankController

namespace Cartridge
variable {c : Cartridge σ}

structure InUse (c : Cartridge σ) : Prop where
  hasRam : c.hasRam
  nibbles : c.controller.nibbles? = none
  size : 0 < size c.storage

theorem create_inUse (hlaws : Dependable isOpen) {rom : ByteArray} {storage : σ}
    (h : create rom storage = .ok c) (hram : c.hasRam) : c.InUse ∧ isOpen c.storage := by
  have hc := Except.ok.inj (h.symm.trans (create_eq (parse_of_create h) storage))
  have hused := (congrArg Cartridge.hasRam hc).symm.trans hram
  obtain ⟨hwants, hactive⟩ := Bool.and_eq_true_iff.mp hused
  have hstorage : c.storage = (activate (setSize storage c.header.ramSize)).1 := by
    have hplace := congrArg Cartridge.storage hc
    rwa [if_pos hwants] at hplace
  simp only [wantsRam, Bool.and_eq_true, bne_iff_ne, decide_eq_true_eq] at hwants
  obtain ⟨⟨-, hkind⟩, hsize⟩ := hwants
  refine ⟨⟨hram, ?_, ?_⟩, ?_⟩
  · rw [(create_controller h).2, (BankController.nibbles_ofKind _).2, if_neg hkind]
  · rwa [hstorage, hlaws.size_activate, hlaws.size_setSize]
  · rw [hstorage]
    exact hlaws.opened (Prod.ext rfl (Option.isNone_iff_eq_none.mp hactive))

/-- What a save comes to: the store could not be closed, or was closed and opened again, or was
closed and could not be opened again. -/
theorem persist_cases (hram : c.hasRam) :
    (∃ t fault, deactivate c.storage = (t, some fault) ∧
      c.persist = ({ c with storage := t }, some fault)) ∨
    ∃ s t fault, deactivate c.storage = (s, none) ∧ activate s = (t, fault) ∧
      c.persist = ({ c with storage := t }, fault) := by
  rw [persist, if_pos hram]
  cases hclose : deactivate c.storage with
  | mk s refused =>
    cases refused with
    | some fault => exact .inl ⟨s, fault, rfl, rfl⟩
    | none => exact .inr ⟨s, _, _, rfl, rfl, rfl⟩

theorem InUse.use (hlaws : Dependable isOpen) (h : c.InUse) (u : Use) : (c.use u).InUse := by
  cases u with
  | read => exact h
  | write a v =>
    rw [Cartridge.use, write_eq]
    refine ⟨h.hasRam, BankController.useAlone_nibbles h.nibbles (.write a v), ?_⟩
    dsimp only
    split
    · exact (BankController.writeExternal_size _ hlaws ..).symm ▸ h.size
    · exact h.size
  | persist =>
    rw [Cartridge.use]
    rcases persist_cases h.hasRam with ⟨t, fault, hclose, hc⟩ | ⟨s, t, fault, hclose, hopen, hc⟩
    · have hsize := hlaws.size_deactivate c.storage
      rw [hclose] at hsize
      rw [hc]
      exact ⟨h.hasRam, h.nibbles, hsize.symm ▸ h.size⟩
    · have hsize := hlaws.size_activate s
      have hsize' := hlaws.size_deactivate c.storage
      rw [hopen] at hsize
      rw [hclose] at hsize'
      rw [hc]
      exact ⟨h.hasRam, h.nibbles, (hsize.trans hsize').symm ▸ h.size⟩

theorem InUse.useAll (hlaws : Dependable isOpen) (h : c.InUse) (uses : List Use) :
    (c.useAll uses).InUse := by
  induction uses generalizing c with
  | nil => exact h
  | cons u rest ih => exact ih (h.use hlaws u)

/-- What a cartridge with its memory in a store may come to. It is used, and meanwhile the medium
behind the store may change in any way. -/
inductive Reached : Cartridge σ → Prop where
  | create {rom : ByteArray} {storage : σ} {c : Cartridge σ} :
    create rom storage = .ok c → c.hasRam → Reached c
  | use {c : Cartridge σ} (u : Use) : Reached c → Reached (c.use u)
  | disturb {c : Cartridge σ} {t : σ} : Reached c → ExternalMemory.size t = size c.storage →
    Reached { c with storage := t }

theorem Reached.inUse (hlaws : Dependable isOpen) (h : c.Reached) : c.InUse := by
  induction h with
  | create hcreate hram => exact (create_inUse hlaws hcreate hram).1
  | use u _ ih => exact ih.use hlaws u
  | disturb _ hsize ih => exact ⟨ih.hasRam, ih.nibbles, hsize.symm ▸ ih.size⟩

theorem Reached.useAll (h : c.Reached) (uses : List Use) : (c.useAll uses).Reached := by
  induction uses generalizing c with
  | nil => exact h
  | cons u rest ih => exact ih (.use u h)

def FailsToReopen (c : Cartridge σ) : Prop :=
  ∃ s t fault, deactivate c.storage = (s, none) ∧ activate s = (t, some fault)

theorem use_open (hlaws : Dependable isOpen) (h : c.InUse) (hopen : isOpen c.storage) (u : Use)
    (hreopens : u = .persist → ¬c.FailsToReopen) : isOpen (c.use u).storage := by
  cases u with
  | read => exact hopen
  | write a v =>
    rw [use, write_eq]
    dsimp only
    split
    · exact BankController.writeExternal_open _ hlaws hopen a v
    · exact hopen
  | persist =>
    rw [use]
    rcases persist_cases h.hasRam with ⟨t, fault, hclose, hc⟩ | ⟨s, t, fault, hclose, hagain, hc⟩
    · rw [hc]
      exact (hlaws.notClosed hclose).1.mpr hopen
    · rw [hc]
      cases fault with
      | none => exact hlaws.opened hagain
      | some fault => exact absurd ⟨s, t, fault, hclose, hagain⟩ (hreopens rfl)

theorem useAll_open (hlaws : Dependable isOpen) (h : c.InUse) (hopen : isOpen c.storage)
    {uses : List Use} (hreopens : ∀ before rest, uses = before ++ .persist :: rest →
      ¬(c.useAll before).FailsToReopen) : isOpen (c.useAll uses).storage := by
  induction uses generalizing c with
  | nil => exact hopen
  | cons u rest ih =>
    refine ih (h.use hlaws u) (use_open hlaws h hopen u ?_) fun before after hrest => ?_
    · rintro rfl
      exact hreopens [] rest rfl
    · exact hreopens (u :: before) after (by rw [hrest]; rfl)

/-- From here on a cartridge answers as another does, and keeps what is written to its memory. -/
structure Undisturbed (c c' : Cartridge σ) : Prop where
  read (later : List Use) (h : .persist ∉ later) (a : UInt16) :
    (c'.useAll later).read a = (c.useAll later).read a
  kept (later : List Use) (h : .persist ∉ later) :
    (c'.useAll later).controller.opened → ∀ a v, 0xA000 ≤ a → a < 0xC000 →
      ((c'.useAll later).write a v).read a = v

/-- From here on a cartridge answers as another does, but that there is nothing in its memory. -/
def ShutOut (c c' : Cartridge σ) : Prop :=
  ∀ later : List Use, .persist ∉ later → ∀ a, (c'.useAll later).read a =
    if 0xA000 ≤ a ∧ a < 0xC000 ∧ (c.useAll later).controller.opened then 0xFF
    else (c.useAll later).read a

theorem read_withStorage (hram : c.hasRam) {a : UInt16}
    (h : 0xA000 ≤ a → a < 0xC000 →
      c.controller.readRam (some t) a = c.controller.readRam (some c.storage) a) :
    read { c with storage := t } a = c.read a := by
  have hother : external { c with storage := t } = some t := if_pos hram
  have hown : c.external = some c.storage := if_pos hram
  have hplace : imagePlace? { c with storage := t } a = c.imagePlace? a := rfl
  rw [read_eq, read_eq, hplace, hother, hown]
  split
  · rfl
  split
  case isFalse => rfl
  case isTrue hwindow =>
    simp only [Bool.and_eq_true, decide_eq_true_eq] at hwindow
    exact h hwindow.1 hwindow.2

/-- While memory shows in the window it is that of the store, whichever it is. -/
theorem InUse.read_window (h : c.InUse) (t : σ) {a : UInt16} (hlow : 0xA000 ≤ a)
    (hhigh : a < 0xC000) (hshows : c.controller.opened) :
    read { c with storage := t } a = c.controller.readExternal (some t) a := by
  have hother : external { c with storage := t } = some t := if_pos h.hasRam
  rw [← hother]
  exact read_external { c with storage := t } hlow hhigh hshows h.nibbles

theorem use_same (hlaws : Dependable isOpen) (hsame : SameBytes isOpen c.storage t) {u : Use}
    (hu : u ≠ .persist) : ∃ t', use { c with storage := t } u = { c.use u with storage := t' } ∧
      SameBytes isOpen (c.use u).storage t' := by
  cases u with
  | read => exact ⟨t, rfl, hsame⟩
  | persist => exact absurd rfl hu
  | write a v =>
    simp only [use, write_eq]
    have hreaches : reachesStore { c with storage := t } a = c.reachesStore a := rfl
    rw [hreaches]
    cases c.reachesStore a with
    | false => exact ⟨t, rfl, hsame⟩
    | true => exact ⟨_, rfl, c.controller.writeExternal_same hlaws hsame a v⟩

theorem useAll_same (hlaws : Dependable isOpen) (hsame : SameBytes isOpen c.storage t)
    {uses : List Use} (huses : .persist ∉ uses) :
    ∃ t', useAll { c with storage := t } uses = { c.useAll uses with storage := t' } ∧
      SameBytes isOpen (c.useAll uses).storage t' := by
  induction uses generalizing c t with
  | nil => exact ⟨t, rfl, hsame⟩
  | cons u rest ih =>
    simp only [List.mem_cons, not_or] at huses
    obtain ⟨t', huse, hsame'⟩ := use_same hlaws hsame (Ne.symm huses.1)
    obtain ⟨t'', hrest, hsame''⟩ := ih hsame' huses.2
    exact ⟨t'', (congrArg (useAll · rest) huse).trans hrest, hsame''⟩

theorem use_closed (hsilent : Silent isOpen) (hclosed : ¬isOpen t) {u : Use}
    (hu : u ≠ .persist) : use { c with storage := t } u = { c.use u with storage := t } := by
  cases u with
  | read => rfl
  | persist => exact absurd rfl hu
  | write a v =>
    have hdropped := BankController.writeExternal_closed (s := t) c.controller fun i v =>
      hsilent.writeByte i v hclosed
    simp only [use, write_eq, hdropped, ite_self]

theorem useAll_closed (hsilent : Silent isOpen) (hclosed : ¬isOpen t) {uses : List Use}
    (huses : .persist ∉ uses) :
    useAll { c with storage := t } uses = { c.useAll uses with storage := t } := by
  induction uses generalizing c with
  | nil => rfl
  | cons u rest ih =>
    simp only [List.mem_cons, not_or] at huses
    have huse := use_closed (c := c) hsilent hclosed (Ne.symm huses.1)
    exact (congrArg (useAll · rest) huse).trans (ih huses.2)

theorem InUse.read_write (h : c.InUse) {a : UInt16} (hlow : 0xA000 ≤ a) (hhigh : a < 0xC000)
    (hshows : c.controller.opened) (v : UInt8) : (c.write a v).read a =
      c.controller.readExternal (some (c.controller.writeExternal c.storage a v)) a := by
  have hexternal : c.controller.writesExternal = true := by
    rw [BankController.writesExternal_eq, h.nibbles, hshows]
    rfl
  have hreaches : c.reachesStore a = true := by
    simp [reachesStore, hlow, hhigh, hexternal, h.hasRam]
  have hcontroller : c.controller.useAlone (.write a v) = c.controller := by
    simp [BankController.useAlone, (not_program hlow).2, hexternal]
  rw [write_eq, hreaches, hcontroller, if_pos rfl]
  exact h.read_window _ hlow hhigh hshows

theorem InUse.read_of_write (hlaws : Dependable isOpen) (h : c.InUse) (hopen : isOpen c.storage)
    (hshows : c.controller.opened) {a : UInt16} (hlow : 0xA000 ≤ a) (hhigh : a < 0xC000)
    (v : UInt8) : (c.write a v).read a = v :=
  (h.read_write hlow hhigh hshows v).trans
    (BankController.readExternal_writeExternal _ hlaws hopen h.size a v)

theorem undisturbed (hlaws : Dependable isOpen) (h : c.InUse)
    (hsame : SameBytes isOpen c.storage t) : c.Undisturbed { c with storage := t } := by
  refine ⟨fun later hlater a => ?_, fun later hlater hshows a v hlow hhigh => ?_⟩
  · obtain ⟨t', hafter, hsame'⟩ := useAll_same hlaws hsame hlater
    rw [hafter]
    exact read_withStorage (h.useAll hlaws later).hasRam fun _ _ =>
      BankController.readRam_same _ hsame' a
  · obtain ⟨t', hafter, hsame'⟩ := useAll_same hlaws hsame hlater
    have hstart : InUse { c with storage := t } := ⟨h.hasRam, h.nibbles, hsame.size ▸ h.size⟩
    refine (hstart.useAll hlaws later).read_of_write hlaws ?_ hshows hlow hhigh v
    rw [hafter]
    exact hsame'.right

theorem shutOut (hlaws : Dependable isOpen) (hsilent : Silent isOpen) (h : c.InUse)
    (hclosed : ¬isOpen t) : c.ShutOut { c with storage := t } := by
  intro later hlater a
  have hlast := h.useAll hlaws later
  rw [useAll_closed hsilent hclosed hlater]
  split
  case isTrue hshows =>
    exact (hlast.read_window t hshows.1 hshows.2.1 hshows.2.2).trans
      (BankController.readExternal_closed _ (hsilent.readByte · hclosed) a)
  case isFalse hhidden =>
    refine read_withStorage hlast.hasRam fun hlow hhigh => ?_
    refine BankController.readRam_unopened ?_ _ _ a
    exact Bool.eq_false_iff.mpr fun hshows => hhidden ⟨hlow, hhigh, hshows⟩

/-- A save that fails. If the store was open and could not be closed, everything is as if nothing
had been saved. If it was closed and could not be opened again, or had been closed before, the
cartridge answers as if it were so, but for its memory, which is shut out. -/
theorem persist_failed (hlaws : Dependable isOpen) {c c' : Cartridge σ} (h : c.Reached)
    {fault : Fault} (hfails : c.persist = (c', some fault)) :
    (isOpen c.storage → ¬c.FailsToReopen → isOpen c'.storage ∧ c.Undisturbed c') ∧
    (Silent isOpen → ¬isOpen c.storage ∨ c.FailsToReopen →
      ¬isOpen c'.storage ∧ c.ShutOut c') := by
  have hused : c.InUse := h.inUse hlaws
  rcases persist_cases hused.hasRam with
    ⟨t, refusal, hclose, hc⟩ | ⟨s, t, failure, hclose, hagain, hc⟩
  · obtain ⟨rfl, -⟩ := Prod.mk.inj (hc.symm.trans hfails)
    obtain ⟨hleft, hbytes⟩ := hlaws.notClosed hclose
    have hreopens : ¬c.FailsToReopen := by
      rintro ⟨s, t', _, hclosed, -⟩
      cases (Prod.mk.inj (hclose.symm.trans hclosed)).2
    refine ⟨fun hopen _ => ⟨hleft.mpr hopen, undisturbed hlaws hused ?_⟩, fun hsilent hnot => ?_⟩
    · have hsize := hlaws.size_deactivate c.storage
      rw [hclose] at hsize
      exact ⟨hopen, hleft.mpr hopen, hsize, hbytes⟩
    · have hclosed : ¬isOpen t := fun hopen => hnot.elim (· (hleft.mp hopen)) hreopens
      exact ⟨hclosed, shutOut hlaws hsilent hused hclosed⟩
  · obtain ⟨rfl, rfl⟩ := Prod.mk.inj (hc.symm.trans hfails)
    refine ⟨fun _ hreopens => absurd ⟨s, t, fault, hclose, hagain⟩ hreopens, fun hsilent _ => ?_⟩
    have hclosed : ¬isOpen t := hsilent.notOpened hagain (hsilent.closed hclose)
    exact ⟨hclosed, shutOut hlaws hsilent hused hclosed⟩

end Cartridge
end

namespace Cartridge

/-- A file that cannot be written takes nothing away from a cartridge that is saved on it. One that
has become a directory since takes its memory. -/
theorem refused_media :
    ∃ start c' lost : Cartridge (Unreliable VolatileRam ⊕ SaveFile),
      create (headerImage 0x03 2) (.inr { medium := .readOnly ⟨#[7]⟩ }) = .ok start ∧
        start.hasRam ∧
        (start.useAll [.write 0x0000 0x0A, .write 0xA000 42]).persist =
          (c', some (.io "permission denied")) ∧
        c'.read 0xA000 = 42 ∧ (c'.write 0xA001 9).read 0xA001 = 9 ∧
        persist { start.useAll [.write 0x0000 0x0A] with
          storage := start.storage.map id fun f => { f with medium := .directory } } =
            (lost, some (.io "is a directory")) ∧
        lost.read 0xA000 = 0xFF := by
  have hlaws := VolatileRam.dependable.unreliable.sum SaveFile.dependable
  obtain ⟨header, hparse, hmbc1, hramSize⟩ := parse_headerImage 0x03 2 rfl
  have hwants : wantsRam header = true := by
    simp [wantsRam, hmbc1, hramSize, Header.ramSizeOfCode]
  obtain ⟨loaded, hopen⟩ : ∃ loaded,
      (SaveFile.sized 0x2000 (.readOnly ⟨#[7]⟩)).activate = (loaded, none) := ⟨_, rfl⟩
  obtain ⟨hactive, hclean, hmedium⟩ := SaveFile.opened_of_activate hopen
  have hsize : loaded.data.size = 0x2000 := (SaveFile.kept_of_activate hopen).size
  let start : Cartridge (Unreliable VolatileRam ⊕ SaveFile) :=
    { rom := headerImage 0x03 2
      header
      controller := .mbc1 {}
      storage := .inr loaded
      hasRam := true }
  have hcreate : create (headerImage 0x03 2)
      (.inr { medium := .readOnly ⟨#[7]⟩ } : Unreliable VolatileRam ⊕ SaveFile) = .ok start := by
    have hloaded : ExternalMemory.activate (ExternalMemory.setSize
        (.inr { medium := .readOnly ⟨#[7]⟩ } : Unreliable VolatileRam ⊕ SaveFile) header.ramSize) =
          (.inr loaded, none) := by
      rw [hramSize]
      exact congrArg (fun r : SaveFile × Option Fault => (Sum.inr r.1, r.2)) hopen
    rw [create_eq hparse, hloaded, hwants, hmbc1]
    rfl
  have hstart : start.Reached := .create hcreate rfl
  let enabled := start.useAll [.write 0x0000 0x0A]
  have henabled : enabled.Reached := hstart.useAll _
  have hnow : start.useAll [.write 0x0000 0x0A, .write 0xA000 42] =
      { enabled with storage := .inr (loaded.writeByte 0 42) } := by
    have hwritten : enabled.controller.writeExternal enabled.storage 0xA000 42 =
        .inr (loaded.writeByte 0 42) := by
      have hsize' : ExternalMemory.size enabled.storage = 0x2000 := hsize
      have hbank : enabled.controller.ramBank = 0 := rfl
      have hplace : enabled.controller.ramOffset 0x2000 0xA000 = 0 := by
        rw [BankController.ramOffset, hbank]
        rfl
      simp only [BankController.writeExternal, hsize', hplace]
      rfl
    exact (write_eq enabled 0xA000 42).trans (by rw [hwritten]; rfl)
  have hrefused : (loaded.writeByte 0 42).deactivate =
      (loaded.writeByte 0 42, some (.io "permission denied")) := by
    have hfirst : loaded.readByte 0 = 7 :=
      SaveFile.readByte_of_readOnly hopen (by decide) (by decide)
    exact SaveFile.deactivate_of_readOnly hactive (by omega)
      (ne_of_eq_of_ne hfirst (by decide)) hmedium
  have hfails : (start.useAll [.write 0x0000 0x0A, .write 0xA000 42]).persist =
      (start.useAll [.write 0x0000 0x0A, .write 0xA000 42], some (.io "permission denied")) := by
    rw [hnow]
    simp only [persist, ExternalMemory.deactivate, hrefused]
    rfl
  have hkeeps : ¬(start.useAll [.write 0x0000 0x0A, .write 0xA000 42]).FailsToReopen := by
    rintro ⟨_, _, _, hclosed, -⟩
    rw [hnow] at hclosed
    simp [ExternalMemory.deactivate, hrefused] at hclosed
  have hunsaved : ∀ before rest, [Use.write 0x0000 0x0A, .write 0xA000 42] =
      before ++ .persist :: rest → ¬(start.useAll before).FailsToReopen := by
    intro before rest huses
    have hsaved : Use.persist ∈ [Use.write 0x0000 0x0A, .write 0xA000 42] := by simp [huses]
    simp at hsaved
  obtain ⟨hinUse, hopened⟩ := create_inUse hlaws hcreate rfl
  obtain ⟨hsame, -⟩ := persist_failed hlaws (hstart.useAll _) hfails
  obtain ⟨-, hread, hkept⟩ := hsame (useAll_open hlaws hinUse hopened hunsaved) hkeeps
  have hwritten : (enabled.write 0xA000 42).read 0xA000 = 42 :=
    (henabled.inUse hlaws).read_of_write hlaws hactive rfl (by decide) (by decide) 42
  let onDirectory : Unreliable VolatileRam ⊕ SaveFile := .inr { loaded with medium := .directory }
  have hclosed : ExternalMemory.deactivate onDirectory =
      (.inr { loaded with medium := .directory, active := false }, none) := by
    have hfile := SaveFile.deactivate_of_clean (f := { loaded with medium := .directory }) hclean
    simp only [onDirectory, ExternalMemory.deactivate, hfile]
  have hlost : persist { enabled with storage := onDirectory } =
      ({ enabled with storage := .inr { loaded with medium := .directory, active := false } },
        some (.io "is a directory")) := by
    simp only [persist, hclosed]
    rfl
  have hdisturbed : Reached { enabled with storage := onDirectory } := henabled.disturb rfl
  obtain ⟨-, hshut⟩ := persist_failed hlaws hdisturbed hlost
  obtain ⟨-, hnothing⟩ :=
    hshut (VolatileRam.silent.unreliable.sum SaveFile.silent) (.inr ⟨_, _, _, hclosed, rfl⟩)
  refine ⟨start, _, _, hcreate, rfl, hfails, (hread [] (by simp) 0xA000).trans hwritten, ?_, hlost,
    (hnothing [] (by simp) 0xA000).trans (if_pos ⟨by decide, by decide, rfl⟩)⟩
  exact hkept [] (by simp) (by rw [hnow]; rfl) 0xA001 9 (by decide) (by decide)

end Cartridge

/-- A store that is closed and reports a failure all the same. -/
structure Slipping where
  inner : VolatileRam := {}

instance : ExternalMemory Slipping where
  activate s := ({ inner := (ExternalMemory.activate s.inner).1 }, none)
  deactivate s := ({ inner := (ExternalMemory.deactivate s.inner).1 }, some (.io "late"))
  readByte s i := s.inner.readByte i
  writeByte s i v := { inner := s.inner.writeByte i v }
  setSize s n := { inner := ExternalMemory.setSize s.inner n }
  size s := ExternalMemory.size s.inner

namespace Cartridge

/-- With the memory enabled the window shows after a save that fails what it showed before, and what
is written to it from then on. -/
def SurvivesSaving {σ : Type} [ExternalMemory σ] (c : Cartridge σ) : Prop :=
  ∀ c' fault, c.persist = (c', some fault) → c.controller.ramEnabled →
    ∀ a, 0xA000 ≤ a → a < 0xC000 → c'.read a = c.read a ∧ ∀ v, (c'.write a v).read a = v

theorem InUse.loses_of_closed {σ : Type} [ExternalMemory σ] {c : Cartridge σ} {left : σ}
    {fault : Fault} (h : InUse { c with storage := left }) (hshows : c.controller.opened)
    (hfails : c.persist = ({ c with storage := left }, some fault))
    (hread : ∀ i, ExternalMemory.readByte left i = 0xFF)
    (hwrite : ∀ i v, ExternalMemory.writeByte left i v = left) : ¬c.SurvivesSaving := by
  intro hsurvives
  have henabled := (Bool.and_eq_true_iff.mp hshows).1
  have hkept := (hsurvives _ _ hfails henabled 0xA000 (by decide) (by decide)).2 42
  rw [h.read_write (by decide) (by decide) hshows, BankController.writeExternal_closed _ hwrite,
    BankController.readExternal_closed _ hread] at hkept
  exact absurd hkept (by decide)

/-- A file that cannot be read again, a register of a clock in the window, and a store that does not
keep to what its failure says. -/
theorem not_survivesSaving :
    (∃ start : Cartridge SaveFile,
      create (headerImage 0x03 2) { medium := .missing } = .ok start ∧
        let c := start.useAll [.write 0x0000 0x0A]
        let c := { c with storage := { c.storage with medium := .directory } }
        c.hasRam ∧ ¬c.SurvivesSaving) ∧
    (∃ start : Cartridge (Unreliable VolatileRam),
      create (headerImage 0x10 2)
          { inner := {}, refusesDeactivate := some (.externalMemory "write protected") } =
            .ok start ∧
        let c := start.useAll [.write 0x0000 0x0A, .write 0x4000 8]
        c.hasRam ∧ ¬c.SurvivesSaving) ∧
    ∃ start : Cartridge Slipping,
      create (headerImage 0x03 2) {} = .ok start ∧
        let c := start.useAll [.write 0x0000 0x0A]
        c.hasRam ∧ ¬c.SurvivesSaving := by
  obtain ⟨header, hparse, hkind, hsize⟩ := parse_headerImage 0x03 2 rfl
  have hwants : wantsRam header = true := by simp [wantsRam, hkind, hsize, Header.ramSizeOfCode]
  have hplaces : 0 < header.ramSize := by rw [hsize]; decide
  refine ⟨?_, ?_, ?_⟩
  · refine ⟨_, by rw [create_eq hparse, hwants, hkind], rfl, ?_⟩
    refine InUse.loses_of_closed ⟨rfl, rfl, ?_⟩ rfl rfl (fun _ => rfl) fun _ _ => rfl
    exact Nat.lt_of_lt_of_eq hplaces (SaveFile.sized_size header.ramSize .missing).symm
  · obtain ⟨header, hparse, hkind, hsize⟩ := parse_headerImage 0x10 2 rfl
    have hwants : wantsRam header = true := by simp [wantsRam, hkind, hsize, Header.ramSizeOfCode]
    refine ⟨_, by rw [create_eq hparse, hwants, hkind], rfl, fun hsurvives => ?_⟩
    have hkept := (hsurvives _ _ rfl rfl 0xA000 (by decide) (by decide)).2 42
    exact absurd hkept (ne_of_eq_of_ne (b := 0xC0) rfl (by decide))
  · refine ⟨_, by rw [create_eq hparse, hwants, hkind], rfl, ?_⟩
    refine InUse.loses_of_closed ⟨rfl, rfl, ?_⟩ rfl rfl (fun _ => rfl) fun _ _ => rfl
    exact Nat.lt_of_lt_of_eq hplaces (size_resize ..).symm

end Cartridge
end Handheld
