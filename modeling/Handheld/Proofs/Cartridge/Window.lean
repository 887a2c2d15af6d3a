import Handheld.Proofs.Bus.Cells
import Handheld.Proofs.Cartridge.Control

/-!
The window at A000 over the memory of a cartridge. With the memory enabled and selected it is an
array that repeats around its size; no other write changes the array.
-/

namespace Handheld

theorem size_setByte (bytes : ByteArray) (i : Nat) (v : UInt8) :
    (setByte bytes i v).size = bytes.size := by
  unfold setByte
  split
  · exact size_set ..
  · rfl

theorem byteAt_setByte (bytes : ByteArray) {i : Nat} (h : i < bytes.size) (v : UInt8) (j : Nat)
    (fallback : UInt8) : byteAt (setByte bytes i v) j fallback =
      if i = j then v else byteAt bytes j fallback := by
  rw [setByte, dif_pos h]
  by_cases hj : j < bytes.size
  · rw [byteAt, dif_pos (by rwa [size_set]), get_set_byte, byteAt, dif_pos hj]
  · have hne : i ≠ j := by omega
    rw [if_neg hne, byteAt, dif_neg (by rwa [size_set]), byteAt, dif_neg hj]

theorem byteAt_of_lt {bytes : ByteArray} {i : Nat} (h : i < bytes.size) (fallback : UInt8) :
    byteAt bytes i fallback = bytes[i] := dif_pos h

theorem size_resize (bytes : ByteArray) (n : Nat) : (resize bytes n).size = n := by
  unfold resize
  split
  · rw [ByteArray.size_extract]
    omega
  · have hrest : ByteArray.size ⟨Array.replicate (n - bytes.size) 0⟩ = n - bytes.size :=
      Array.size_replicate
    rw [ByteArray.size_append, hrest]
    omega

theorem byteAt_resize (bytes : ByteArray) {i n : Nat} (h : i < n) (fallback : UInt8) :
    byteAt (resize bytes n) i fallback = byteAt bytes i 0 := by
  have hsize : i < (resize bytes n).size := (size_resize bytes n).symm ▸ h
  rw [byteAt_of_lt hsize]
  unfold resize at hsize ⊢
  by_cases hcut : n ≤ bytes.size
  · simp only [if_pos hcut] at hsize ⊢
    rw [ByteArray.getElem_extract, byteAt_of_lt (by omega)]
    simp only [Nat.zero_add]
  · simp only [if_neg hcut] at hsize ⊢
    by_cases hi : i < bytes.size
    · rw [ByteArray.getElem_append_left hi, byteAt_of_lt hi]
    · rw [ByteArray.getElem_append_right (Nat.le_of_not_lt hi), byteAt, dif_neg hi]
      exact Array.getElem_replicate ..

/-- What a byte of the memory keeps of a value, which is half of it where there are half bytes. -/
def ControllerKind.kept (k : ControllerKind) (v : UInt8) : UInt8 :=
  if k = .mbc2 then v &&& 0x0F else v

def ControllerKind.shown (k : ControllerKind) (v : UInt8) : UInt8 :=
  if k = .mbc2 then 0xF0 ||| v else v

namespace BankController

def selectsMemory : BankController → Bool
  | .mbc3 s => s.select < 0x08
  | _ => true

def opened (c : BankController) : Bool := c.ramEnabled && c.selectsMemory

def nibbles? : BankController → Option (Memory 512)
  | .mbc2 s => some s.nibbles
  | _ => none

variable (c : BankController)

theorem kind_eq_mbc2 : c.kind = .mbc2 ↔ c.nibbles?.isSome := by
  cases c <;> simp [kind, nibbles?]

theorem ramBank_of_nibbles {c : BankController} {m : Memory 512} (h : c.nibbles? = some m) :
    c.ramBank = 0 := by
  cases c with
  | mbc2 => rfl
  | romOnly | mbc1 | mbc3 | mbc5 => cases h

theorem nibbles_ofKind (k : CartridgeKind) : (ofKind k).kind = k.controller ∧
    (ofKind k).nibbles? = if k.controller = .mbc2 then some (.filled 512 0x0F) else none := by
  unfold ofKind
  cases k.controller <;> exact ⟨rfl, rfl⟩

theorem writeControl_nibbles (a : UInt16) (v : UInt8) :
    (c.writeControl a v).kind = c.kind ∧ (c.writeControl a v).nibbles? = c.nibbles? := by
  cases c with
  | mbc2 s =>
    refine ⟨rfl, ?_⟩
    simp only [writeControl, nibbles?, Mbc2.writeControl]
    repeat' split
    all_goals rfl
  | romOnly | mbc1 | mbc3 | mbc5 => exact ⟨rfl, rfl⟩

theorem selectsMemory_mbc3 (s : Mbc3) : (mbc3 s).selectsMemory = !s.selectsClock := by
  rw [selectsMemory, Mbc3.selectsClock, ← decide_not]
  exact decide_eq_decide.mpr UInt8.not_le.symm

theorem writesExternal_eq : c.writesExternal = (c.nibbles?.isNone && c.opened) := by
  cases c with
  | mbc3 s =>
    rw [opened, selectsMemory_mbc3]
    simp [writesExternal, nibbles?]
  | romOnly | mbc1 | mbc2 | mbc5 => simp [writesExternal, nibbles?, opened, selectsMemory]

theorem writeInternal_nibbles (a : UInt16) (v : UInt8) :
    (c.writeInternal a v).kind = c.kind ∧ (c.writeInternal a v).nibbles? =
      if c.opened then c.nibbles?.map (·.write (nibbleOffset a) (v &&& 0x0F))
      else c.nibbles? := by
  cases c with
  | mbc2 s =>
    simp only [writeInternal, opened, selectsMemory, ramEnabled, Bool.and_true]
    split <;> simp [nibbles?, kind]
  | mbc3 s =>
    simp only [writeInternal]
    split <;> simp [nibbles?, kind]
  | romOnly | mbc1 | mbc5 => simp [writeInternal, nibbles?]

theorem readRam_opened {σ : Type} [ExternalMemory σ] {c : BankController} (h : c.opened)
    (ram : Option σ) (a : UInt16) : c.readRam ram a = match c.nibbles? with
      | some m => 0xF0 ||| m.read (nibbleOffset a)
      | none => c.readExternal ram a := by
  obtain ⟨henabled, hmemory⟩ := Bool.and_eq_true_iff.mp h
  unfold readRam
  rw [henabled]
  cases c with
  | mbc3 s =>
    have hclock : s.selectsClock = false := by
      rw [selectsMemory_mbc3] at hmemory
      simpa using hmemory
    simp only [nibbles?, hclock]
    rfl
  | romOnly | mbc1 | mbc2 | mbc5 => rfl

end BankController

namespace Cartridge

/-- Places of the memory behind the window. -/
def capacity (c : Cartridge VolatileRam) : Nat :=
  match c.controller.nibbles? with
  | some _ => 512
  | none => c.storage.data.size

def stored (c : Cartridge VolatileRam) (i : Nat) : UInt8 :=
  match c.controller.nibbles? with
  | some m => m.read i
  | none => byteAt c.storage.data i 0xFF

/-- There is memory behind the window: the controller's own, or a store in use. -/
def Backed (c : Cartridge VolatileRam) : Prop :=
  c.controller.kind = .mbc2 ∨ c.hasRam ∧ c.storage.active ∧ 0 < c.storage.data.size

/-- The place of the memory that shows at an address of the window. -/
def place (c : Cartridge VolatileRam) (a : UInt16) : Nat :=
  (c.controller.ramBank * 0x2000 + (a.toNat - 0xA000)) % c.capacity

def reached? (c : Cartridge VolatileRam) (a : UInt16) : Option Nat :=
  if 0xA000 ≤ a ∧ a < 0xC000 ∧ c.controller.opened then some (c.place a) else none

theorem place_of_nibbles {c : Cartridge VolatileRam} {m : Memory 512}
    (h : c.controller.nibbles? = some m) (a : UInt16) :
    c.place a = BankController.nibbleOffset a := by
  rw [place, capacity, h, BankController.ramBank_of_nibbles h, Nat.zero_mul, Nat.zero_add]
  rfl

theorem place_of_store {c : Cartridge VolatileRam} (h : c.controller.nibbles? = none) (a : UInt16) :
    c.place a = c.controller.ramOffset c.storage.data.size a := by
  simp only [place, capacity, h, BankController.ramOffset]

theorem ne_mbc2 {c : Cartridge VolatileRam} (h : c.controller.nibbles? = none) :
    c.controller.kind ≠ .mbc2 := by
  intro hkind
  rw [BankController.kind_eq_mbc2, h] at hkind
  cases hkind

theorem Backed.store {c : Cartridge VolatileRam} (hc : c.Backed)
    (h : c.controller.nibbles? = none) :
    c.hasRam ∧ c.storage.active ∧ 0 < c.storage.data.size :=
  hc.resolve_left (ne_mbc2 h)

theorem not_program {a : UInt16} (h : 0xA000 ≤ a) : ¬a < 0x4000 ∧ ¬a < 0x8000 := by
  rw [UInt16.le_iff_toNat_le] at h
  simp only [UInt16.lt_iff_toNat_lt]
  exact ⟨Nat.not_lt.mpr (Nat.le_trans (by decide) h), Nat.not_lt.mpr (Nat.le_trans (by decide) h)⟩

theorem read_window {c : Cartridge VolatileRam} (hc : c.Backed) {a : UInt16} (hlow : 0xA000 ≤ a)
    (hhigh : a < 0xC000) (hopen : c.controller.opened) :
    c.read a = c.controller.kind.shown (c.stored (c.place a)) := by
  have hrom := not_program hlow
  rw [read, if_neg hrom.1, if_neg hrom.2, if_pos (by simp [hlow, hhigh]),
    BankController.readRam_opened hopen]
  cases hnibbles : c.controller.nibbles? with
  | some m =>
    have hkind : c.controller.kind = .mbc2 := c.controller.kind_eq_mbc2.mpr (by simp [hnibbles])
    simp only [place_of_nibbles hnibbles, stored, hnibbles, ControllerKind.shown, hkind, if_true]
  | none =>
    have hkind := ne_mbc2 hnibbles
    obtain ⟨hram, hactive, hsize⟩ := hc.store hnibbles
    have hread : c.controller.readExternal c.external a =
        c.storage.readByte (c.controller.ramOffset c.storage.data.size a) := by
      rw [external, if_pos hram]
      exact if_neg (Nat.ne_of_gt hsize)
    simp only [hread, VolatileRam.readByte, hactive, if_true, ControllerKind.shown, hkind, if_false,
      stored, hnibbles, place_of_store hnibbles]

structure Wrote (c c' : Cartridge VolatileRam) (reached? : Option Nat) (v : UInt8) : Prop where
  backed : c'.Backed
  kind : c'.controller.kind = c.controller.kind
  capacity : c'.capacity = c.capacity
  stored (i : Nat) : c'.stored i =
    if reached? = some i then c.controller.kind.kept v else c.stored i

theorem wrote_of_same {c c' : Cartridge VolatileRam} (hc : c.Backed)
    (hcontroller : c'.controller.kind = c.controller.kind ∧
      c'.controller.nibbles? = c.controller.nibbles?)
    (hstorage : c'.storage = c.storage) (hram : c'.hasRam = c.hasRam) (v : UInt8) :
    c.Wrote c' none v := by
  obtain ⟨hkind, hnibbles⟩ := hcontroller
  refine ⟨?_, hkind, ?_, fun i => ?_⟩
  · rwa [Backed, hkind, hram, hstorage]
  · rw [capacity, hnibbles, hstorage]; rfl
  · rw [stored, hnibbles, hstorage]; rfl

theorem wrote_of_nibbles {c : Cartridge VolatileRam} {m : Memory 512}
    (hnibbles : c.controller.nibbles? = some m) (hopen : c.controller.opened) (a : UInt16)
    (v : UInt8) :
    c.Wrote { c with controller := c.controller.writeInternal a v } (some (c.place a)) v := by
  obtain ⟨hkind, hwritten⟩ := c.controller.writeInternal_nibbles a v
  rw [if_pos hopen, hnibbles, Option.map_some] at hwritten
  have hmbc2 : c.controller.kind = .mbc2 := c.controller.kind_eq_mbc2.mpr (by simp [hnibbles])
  have hplace : BankController.nibbleOffset a < 512 := Nat.mod_lt _ (by decide)
  refine ⟨.inl (hkind.trans hmbc2), hkind, ?_, fun i => ?_⟩
  · simp only [capacity, hwritten, hnibbles]
  · simp only [stored, hwritten, hnibbles, Memory.read_write, place_of_nibbles hnibbles, hplace,
      and_true, Option.some.injEq, ControllerKind.kept, hmbc2, if_true]

theorem wrote_of_store {c : Cartridge VolatileRam} (hc : c.Backed)
    (hnibbles : c.controller.nibbles? = none) {i : Nat} (hi : i < c.storage.data.size) (v : UInt8) :
    c.Wrote { c with storage := { c.storage with data := setByte c.storage.data i v } } (some i)
      v := by
  obtain ⟨hram, hactive, hsize⟩ := hc.store hnibbles
  have hkind := ne_mbc2 hnibbles
  refine ⟨.inr ⟨hram, hactive, ?_⟩, rfl, ?_, fun j => ?_⟩
  · simpa only [size_setByte] using hsize
  · simp only [capacity, hnibbles, size_setByte]
  · simp only [stored, hnibbles, byteAt_setByte _ hi, Option.some.injEq, ControllerKind.kept, hkind,
      if_false]

theorem writeExternal_eq {c : Cartridge VolatileRam} (hc : c.Backed)
    (hnibbles : c.controller.nibbles? = none) (a : UInt16) (v : UInt8) :
    c.place a < c.storage.data.size ∧ c.controller.writeExternal c.storage a v =
      { c.storage with data := setByte c.storage.data (c.place a) v } := by
  obtain ⟨-, hactive, hsize⟩ := hc.store hnibbles
  rw [place_of_store hnibbles]
  refine ⟨Nat.mod_lt _ hsize, ?_⟩
  have hwritten : c.controller.writeExternal c.storage a v =
      c.storage.writeByte (c.controller.ramOffset c.storage.data.size a) v :=
    if_neg (Nat.ne_of_gt hsize)
  rw [hwritten, VolatileRam.writeByte, if_pos hactive]

theorem write_wrote {c : Cartridge VolatileRam} (hc : c.Backed) (a : UInt16) (v : UInt8) :
    c.Wrote (c.write a v) (c.reached? a) v := by
  by_cases hwindow : 0xA000 ≤ a ∧ a < 0xC000
  · have hrom : ¬a < 0x8000 := (not_program hwindow.1).2
    have hwrite : c.write a v = c.writeRam a v := by
      simp [write, hrom, hwindow]
    rw [hwrite, writeRam, BankController.writesExternal_eq]
    cases hopen : c.controller.opened with
    | false =>
      have hreached : c.reached? a = none := if_neg fun h => by simp [hopen] at h
      obtain ⟨hkind, hnibbles⟩ := c.controller.writeInternal_nibbles a v
      rw [hopen, if_neg Bool.false_ne_true] at hnibbles
      rw [hreached, Bool.and_false, if_neg Bool.false_ne_true]
      exact wrote_of_same hc ⟨hkind, hnibbles⟩ (by rfl) (by rfl) v
    | true =>
      have hreached : c.reached? a = some (c.place a) := if_pos ⟨hwindow.1, hwindow.2, hopen⟩
      rw [hreached, Bool.and_true]
      cases hnibbles : c.controller.nibbles? with
      | none =>
        rw [Option.isNone_none, if_pos rfl, if_pos (hc.store hnibbles).1]
        obtain ⟨hplace, hwritten⟩ := writeExternal_eq hc hnibbles a v
        rw [hwritten]
        exact wrote_of_store hc hnibbles hplace v
      | some m =>
        rw [Option.isNone_some, if_neg Bool.false_ne_true]
        exact wrote_of_nibbles hnibbles hopen a v
  · have hreached : c.reached? a = none := if_neg fun h => hwindow ⟨h.1, h.2.1⟩
    have hwrite : c.write a v =
        if a < 0x8000 then { c with controller := c.controller.writeControl a v } else c := by
      simp [write, hwindow]
    rw [hreached, hwrite]
    split
    · exact wrote_of_same hc (c.controller.writeControl_nibbles a v) (by rfl) (by rfl) v
    · exact wrote_of_same hc ⟨rfl, rfl⟩ rfl rfl v

theorem create_stored {rom contents : ByteArray} {c : Cartridge VolatileRam}
    (h : create rom (.withContents contents) = .ok c) (hc : c.Backed) {i : Nat}
    (hi : i < c.capacity) :
    c.stored i = if c.controller.kind = .mbc2 then 0x0F else byteAt contents i 0 := by
  cases hparse : Header.parse rom with
  | error fault =>
    rw [create, hparse] at h
    cases h
  | ok header =>
    obtain ⟨hkind, hnibbles⟩ := BankController.nibbles_ofKind header.kind
    simp only [create, hparse, bind, Except.bind, pure, Except.pure] at h
    split at h
    case isTrue hwants =>
      obtain rfl := Except.ok.inj h
      have hother : header.kind.controller ≠ .mbc2 := by
        simp only [wantsRam, Bool.and_eq_true, bne_iff_ne] at hwants
        exact hwants.1.2
      rw [if_neg hother] at hnibbles
      simp only [capacity, stored, hnibbles, hkind, hother, if_false] at hi ⊢
      have hdata : (ExternalMemory.activate (ExternalMemory.setSize
          (VolatileRam.withContents contents) header.ramSize)).1.data =
          resize contents header.ramSize := rfl
      rw [hdata] at hi ⊢
      rw [size_resize] at hi
      exact byteAt_resize contents hi 0xFF
    case isFalse hwants =>
      obtain rfl := Except.ok.inj h
      have hmbc2 : header.kind.controller = .mbc2 := by
        simpa [Backed, hkind] using hc
      rw [if_pos hmbc2] at hnibbles
      simp only [capacity, stored, hnibbles, hkind, hmbc2, if_true] at hi ⊢
      exact Memory.read_filled 0x0F hi

end Cartridge

namespace Bus

section Cartridge
variable {σ : Type} [ExternalMemory σ]

/-- The bus passes the cartridge every write, of which it takes no notice outside its windows. -/
theorem write_reaches_cartridge (b : Bus σ) (a : UInt16) (v : UInt8) :
    (b.write a v).cartridge = b.cartridge.write a v := by
  have hplace := Region.holds_ofAddress a
  have hkept : ¬a < 0x8000 → ¬(0xA000 ≤ a ∧ a < 0xC000) → b.cartridge.write a v = b.cartridge := by
    intro hlow hwindow
    simp [Cartridge.write, hlow, hwindow]
  simp only [UInt16.lt_iff_toNat_lt, UInt16.le_iff_toNat_le] at hkept
  cases hregion : Region.ofAddress a with
  | cartridge => simp only [write, hregion]
  | io =>
    rw [hregion, Region.Holds] at hplace
    rw [hkept (by simp; omega) (by simp; omega), write, hregion]
    exact (b.writeIo_memories a v).2.2.1
  | vram | wram | oam | unusable | hram | enable =>
    rw [hregion, Region.Holds] at hplace
    rw [hkept (by simp; omega) (by simp; omega), write, hregion]

theorem after_cartridge (b : Bus σ) (history : History) :
    (b.after history).cartridge = b.cartridge.after history := by
  induction history with
  | nil => rfl
  | cons w earlier ih => rw [after, write_reaches_cartridge, ih, Cartridge.after]

end Cartridge

theorem lt_of_le_window {a : UInt16} (h : a ≤ 0xBFFF) : a < 0xC000 :=
  UInt16.lt_of_le_of_lt h (by decide)

theorem read_window {σ : Type} [ExternalMemory σ] (b : Bus σ) {a : UInt16} (hlow : 0xA000 ≤ a)
    (hhigh : a < 0xC000) : b.read a = (b.cartridge.read a, b) := by
  have hregion : Region.ofAddress a = .cartridge := by
    have hplace := Region.holds_ofAddress a
    have hstart : 0xA000 ≤ a.toNat := UInt16.le_iff_toNat_le.mp hlow
    have hend : a.toNat < 0xC000 := UInt16.lt_iff_toNat_lt.mp hhigh
    cases hregion : Region.ofAddress a with
    | cartridge => rfl
    | vram | wram | oam | unusable | io | hram | enable =>
      rw [hregion, Region.Holds] at hplace
      omega
  rw [read_eq_peek b (by rw [hregion]; decide), peek, hregion]

theorem after_backed {b : Bus VolatileRam} (hb : b.cartridge.Backed) (history : History) :
    (b.after history).cartridge.Backed ∧
      (b.after history).cartridge.controller.kind = b.cartridge.controller.kind ∧
      (b.after history).cartridge.capacity = b.cartridge.capacity := by
  induction history with
  | nil => exact ⟨hb, rfl, rfl⟩
  | cons w earlier ih =>
    obtain ⟨hbacked, hkind, hcapacity⟩ := ih
    have hwrote := Cartridge.write_wrote hbacked w.address w.value
    rw [after, write_reaches_cartridge]
    exact ⟨hwrote.backed, hwrote.kind.trans hkind, hwrote.capacity.trans hcapacity⟩

theorem stored_step {b : Bus VolatileRam} (hb : b.cartridge.Backed) (w : BusWrite)
    (earlier : History) (i : Nat) : (b.after (w :: earlier)).cartridge.stored i =
      if (b.after earlier).cartridge.reached? w.address = some i then
        b.cartridge.controller.kind.kept w.value
      else (b.after earlier).cartridge.stored i := by
  obtain ⟨hbacked, hkind, -⟩ := after_backed hb earlier
  rw [after, write_reaches_cartridge, ← hkind]
  exact (Cartridge.write_wrote hbacked w.address w.value).stored i

/-- The window of a cartridge with memory, after any writes. While the memory is enabled and
selected a read gives the last value written to the byte that shows there, through whatever bank,
and what was there at the start if nothing was. A write while it is not, or below 8000, changes no
byte. -/
theorem window_after_writes {b : Bus VolatileRam} (hb : b.cartridge.Backed) (history : History) :
    let k := b.cartridge.controller.kind
    let now := (b.after history).cartridge
    now.capacity = b.cartridge.capacity ∧
    (∀ a, 0xA000 ≤ a → a ≤ 0xBFFF → now.controller.ramEnabled → now.controller.selectsMemory →
      (b.after history).read a =
        (k.shown (((history.lastInto (fun earlier => (b.after earlier).cartridge.reached?)
          (now.place a)).map k.kept).getD (b.cartridge.stored (now.place a))), b.after history)) ∧
    (∀ a v, a < 0x8000 ∨ now.controller.ramEnabled = false ∨ now.controller.selectsMemory = false →
      ∀ i, ((b.after history).write a v).cartridge.stored i = now.stored i) ∧
    ∀ rom contents, Cartridge.create rom (.withContents contents) = .ok b.cartridge →
      ∀ i < b.cartridge.capacity,
        b.cartridge.stored i = if k = .mbc2 then 0x0F else byteAt contents i 0 := by
  intro k now
  obtain ⟨hbacked, hkind, hcapacity⟩ := after_backed hb history
  refine ⟨hcapacity, fun a hlow hhigh henabled hmemory => ?_, fun a v hblocked i => ?_,
    fun rom contents hcreate i hi => Cartridge.create_stored hcreate hb hi⟩
  · have hstored := History.eq_lastInto (fun earlier => (b.after earlier).cartridge.reached?)
      (fun history => (b.after history).cartridge.stored (now.place a)) k.kept
      (fun w earlier => stored_step hb w earlier _) history
    have hread := Cartridge.read_window hbacked hlow (lt_of_le_window hhigh)
      (Bool.and_eq_true_iff.mpr ⟨henabled, hmemory⟩)
    rw [read_window _ hlow (lt_of_le_window hhigh), hread, hkind, hstored]
    rfl
  · have hreached : now.reached? a = none := by
      refine if_neg fun h => ?_
      obtain ⟨hlow, -, hopen⟩ := h
      obtain ⟨henabled, hmemory⟩ := Bool.and_eq_true_iff.mp hopen
      rcases hblocked with hrom | hdisabled | hclock
      · exact (Cartridge.not_program hlow).2 hrom
      · exact Bool.false_ne_true (hdisabled.symm.trans henabled)
      · exact Bool.false_ne_true (hclock.symm.trans hmemory)
    have hwrote := (Cartridge.write_wrote hbacked a v).stored i
    rw [write_reaches_cartridge, hwrote]
    exact if_neg (by simp [now, hreached])

def fourBytes : Bus VolatileRam :=
  { bare with
    cartridge :=
      { Cartridge.twoBanks { controller := .mbc1, ram := true } with
        storage := { data := ⟨#[7, 0, 0, 0]⟩, active := true }
        hasRam := true } }

theorem fourBytes_read_back :
    let history : History :=
      [⟨0x0000, 0x0A⟩, ⟨0xA001, 0x99⟩, ⟨0x0000, 0x00⟩, ⟨0xA001, 0x12⟩, ⟨0x0000, 0x0A⟩]
    fourBytes.cartridge.Backed ∧ ((fourBytes.after history).read 0xA005).1 = 0x12 ∧
      ((fourBytes.after history).read 0xA004).1 = 7 := by
  intro history
  have hbacked : fourBytes.cartridge.Backed := .inr ⟨rfl, rfl, by decide⟩
  obtain ⟨-, hread, -⟩ := window_after_writes hbacked history
  refine ⟨hbacked, ?_, ?_⟩
  · rw [hread 0xA005 (by decide) (by decide) rfl rfl]
    decide +kernel
  · rw [hread 0xA004 (by decide) (by decide) rfl rfl]
    decide +kernel

end Bus
end Handheld
