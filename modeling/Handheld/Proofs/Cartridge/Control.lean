import Mathlib.Data.Nat.Bitwise
import Handheld.Cartridge.Basic
import Handheld.Proofs.History

/-!
The control registers of a cartridge. The banks it shows and whether its memory is enabled depend on
the last value written to each register alone, and not on the order of writes to different ones.
-/

namespace Handheld

/-- A register of a bank controller. No controller has all of them. -/
inductive ControlRegister where
  | enable
  /-- The bank of the program, or its low bits. -/
  | program
  /-- The bit above eight low bits of the bank of the program. -/
  | ninthBit
  /-- The bank of the memory, or upper bits that either bank may have. -/
  | memory
  /-- Says which bank has the upper bits. -/
  | mode
  deriving DecidableEq, Repr

namespace ControlRegister

def at? (k : ControllerKind) (a : UInt16) : Option ControlRegister :=
  match k with
  | .romOnly => none
  | .mbc1 =>
    if a < 0x2000 then some .enable
    else if a < 0x4000 then some .program
    else if a < 0x6000 then some .memory
    else if a < 0x8000 then some .mode
    else none
  | .mbc2 =>
    if a < 0x4000 then some (if a.toNat.testBit 8 then .program else .enable) else none
  | .mbc3 =>
    if a < 0x2000 then some .enable
    else if a < 0x4000 then some .program
    else if a < 0x6000 then some .memory
    else none
  | .mbc5 =>
    if a < 0x2000 then some .enable
    else if a < 0x3000 then some .program
    else if a < 0x4000 then some .ninthBit
    else if a < 0x6000 then some .memory
    else none

theorem at?_of_high {k : ControllerKind} {a : UInt16} (h : ¬a < 0x8000) : at? k a = none := by
  have hlow : ∀ n : UInt16, n ≤ 0x8000 → ¬a < n := fun n hn hlt =>
    h (UInt16.lt_of_lt_of_le hlt hn)
  cases k <;> simp [at?, hlow]

def kept (k : CartridgeKind) (v : Nat) : ControlRegister → Nat
  | .enable => if v % 16 = 10 then 1 else 0
  | .program =>
    match k.controller with
    | .romOnly => 1
    | .mbc1 => max 1 (v % 32)
    | .mbc2 => max 1 (v % 16)
    | .mbc3 => max 1 (v % 128)
    | .mbc5 => v
  | .ninthBit => v % 2
  | .memory =>
    match k.controller with
    | .romOnly | .mbc2 => 0
    | .mbc1 => v % 4
    | .mbc3 => v % 16
    | .mbc5 => v % if k.rumble then 8 else 16
  | .mode => v % 2

def initial : ControlRegister → Nat
  | .program => 1
  | _ => 0

end ControlRegister

def History.lastTo (k : ControllerKind) (history : History) (r : ControlRegister) : Option UInt8 :=
  history.lastInto (fun _ => ControlRegister.at? k) r

/-- The banks that a controller selects, and whether the memory is enabled. -/
structure Selection where
  romBank : Nat
  ramBank : Nat
  ramEnabled : Bool
  deriving DecidableEq, Repr

namespace Selection

def ofRegisters (k : ControllerKind) (value : ControlRegister → Nat) : Selection :=
  let ramEnabled := value .enable = 1
  match k with
  | .romOnly => { romBank := 1, ramBank := 0, ramEnabled := true }
  | .mbc1 =>
    if value .mode = 1 then { romBank := value .program, ramBank := value .memory, ramEnabled }
    else { romBank := value .memory * 32 + value .program, ramBank := 0, ramEnabled }
  | .mbc2 => { romBank := value .program, ramBank := 0, ramEnabled }
  | .mbc3 =>
    { romBank := value .program
      ramBank := if value .memory ≤ 3 then value .memory else 0
      ramEnabled }
  | .mbc5 =>
    { romBank := value .ninthBit * 256 + value .program, ramBank := value .memory, ramEnabled }

def documented (k : CartridgeKind) (last : ControlRegister → Option UInt8) : Selection :=
  ofRegisters k.controller fun r => ((last r).map fun v => r.kept k v.toNat).getD r.initial

end Selection

theorem toNat_and_mask (v : UInt8) {mask : UInt8} (width : Nat) (h : mask.toNat = 2 ^ width - 1) :
    (v &&& mask).toNat = v.toNat % 2 ^ width := by
  rw [UInt8.toNat_and, h, Nat.and_two_pow_sub_one_eq_mod]

theorem toNat_atLeastOne (v : UInt8) : (atLeastOne v).toNat = max 1 v.toNat := by
  unfold atLeastOne
  split
  case isTrue h => rw [h]; rfl
  case isFalse h =>
    have hpos : v.toNat ≠ 0 := fun hzero => h (UInt8.toNat_inj.mp hzero)
    omega

theorem atLeastOne_atLeastOne (v : UInt8) : atLeastOne (atLeastOne v) = atLeastOne v := by
  rw [← UInt8.toNat_inj]
  simp only [toNat_atLeastOne]
  omega

theorem toNat_enables (v : UInt8) : (enables v).toNat = if v.toNat % 16 = 10 then 1 else 0 := by
  have hlow : v &&& 0x0F = 0x0A ↔ v.toNat % 16 = 10 := by
    rw [← UInt8.toNat_inj, toNat_and_mask v 4 rfl]
    rfl
  have henables : enables v = decide (v.toNat % 16 = 10) := decide_eq_decide.mpr hlow
  rw [henables]
  split <;> simp [*]

theorem toNat_lowBit (v : UInt8) : (v &&& 0x01 != 0).toNat = v.toNat % 2 := by
  have hlow : v &&& 0x01 = 0 ↔ v.toNat % 2 = 0 := by
    rw [← UInt8.toNat_inj, toNat_and_mask v 1 rfl]
    rfl
  have hbit : (v &&& 0x01 == 0) = decide (v.toNat % 2 = 0) := decide_eq_decide.mpr hlow
  rw [bne, hbit]
  rcases Nat.mod_two_eq_zero_or_one v.toNat with h | h <;> simp [h]

namespace BankController

def selection (c : BankController) : Selection :=
  { romBank := c.romBank, ramBank := c.ramBank, ramEnabled := c.ramEnabled }

def register : BankController → ControlRegister → Nat
  | .romOnly, r => r.initial
  | .mbc1 s, .enable => s.ramEnabled.toNat
  | .mbc1 s, .program => (atLeastOne (s.low &&& 0x1F)).toNat
  | .mbc1 s, .memory => s.upper.toNat % 4
  | .mbc1 s, .mode => s.ramMode.toNat
  | .mbc2 s, .enable => s.ramEnabled.toNat
  | .mbc2 s, .program => (atLeastOne s.romBank).toNat
  | .mbc3 s, .enable => s.ramEnabled.toNat
  | .mbc3 s, .program => (atLeastOne s.romBank).toNat
  | .mbc3 s, .memory => s.select.toNat
  | .mbc5 s, .enable => s.ramEnabled.toNat
  | .mbc5 s, .program => s.romBank.toNat % 256
  | .mbc5 s, .ninthBit => s.romBank.toNat / 256
  | .mbc5 s, .memory => s.ramBank.toNat
  | _, r => r.initial

/-- A controller of a cartridge of some kind, in a state that it can come to. -/
def IsOf (k : CartridgeKind) (c : BankController) : Prop :=
  c.kind = k.controller ∧ ∀ s, c = .mbc5 s → s.rumble = k.rumble ∧ s.romBank.toNat < 512

theorem isOf_ofKind (k : CartridgeKind) : (ofKind k).IsOf k := by
  unfold ofKind
  cases hkind : k.controller <;> refine ⟨hkind.symm, ?_⟩ <;> simp

theorem isOf_mbc2 {k : CartridgeKind} (hk : k.controller = .mbc2) (s : Mbc2) : (mbc2 s).IsOf k :=
  ⟨hk.symm, nofun⟩

theorem isOf_mbc3 {k : CartridgeKind} (hk : k.controller = .mbc3) (s : Mbc3) : (mbc3 s).IsOf k :=
  ⟨hk.symm, nofun⟩

theorem isOf_mbc5 {k : CartridgeKind} (hk : k.controller = .mbc5) {s : Mbc5}
    (hrumble : s.rumble = k.rumble) (hbank : s.romBank.toNat < 512) : (mbc5 s).IsOf k := by
  refine ⟨hk.symm, ?_⟩
  rintro _ ⟨⟩
  exact ⟨hrumble, hbank⟩

theorem register_ofKind (k : CartridgeKind) (r : ControlRegister) :
    (ofKind k).register r = r.initial := by
  unfold ofKind
  cases k.controller with
  | mbc5 => cases r <;> simp [register, ControlRegister.initial]
  | _ => cases r <;> rfl

theorem selection_eq {k : CartridgeKind} {c : BankController} (h : c.IsOf k) :
    c.selection = .ofRegisters k.controller c.register := by
  obtain ⟨hkind, hmbc5⟩ := h
  rw [← hkind]
  cases c with
  | romOnly => rfl
  | mbc1 s =>
    cases hmode : s.ramMode <;>
      simp [selection, Selection.ofRegisters, kind, register, romBank, ramBank, ramEnabled, hmode]
  | mbc2 s => simp [selection, Selection.ofRegisters, kind, register, romBank, ramBank, ramEnabled]
  | mbc3 s =>
    simp only [selection, Selection.ofRegisters, kind, register, romBank, ramBank, ramEnabled,
      UInt8.le_iff_toNat_le, Bool.toNat_eq_one, Bool.decide_eq_true]
    rfl
  | mbc5 s =>
    have hbank : s.romBank.toNat = s.romBank.toNat / 256 * 256 + s.romBank.toNat % 256 := by omega
    simp [selection, Selection.ofRegisters, kind, register, romBank, ramBank, ramEnabled, ← hbank]

variable {k : CartridgeKind} (a : UInt16) (v : UInt8) (r : ControlRegister)

theorem register_mbc1 (hk : k.controller = .mbc1) (s : Mbc1) :
    ((mbc1 s).writeControl a v).register r =
      if ControlRegister.at? .mbc1 a = some r then r.kept k v.toNat else (mbc1 s).register r := by
  have hlow : (v &&& 0x1F).toNat = v.toNat % 32 := toNat_and_mask v 5 rfl
  have hupper : (v &&& 0x03).toNat = v.toNat % 4 := toNat_and_mask v 2 rfl
  have hmode := toNat_lowBit v
  simp only [writeControl, Mbc1.writeControl, ControlRegister.at?]
  split
  · cases r <;> simp [register, ControlRegister.kept, toNat_enables]
  split
  · cases r <;> simp [register, ControlRegister.kept, hk, toNat_atLeastOne, UInt8.and_assoc, hlow,
      -UInt8.toNat_and]
  split
  · cases r <;> simp [register, ControlRegister.kept, hk, hupper, -UInt8.toNat_and]
  split
  · cases r <;> simp [register, ControlRegister.kept, hmode, -UInt8.toNat_and, -bne_iff_ne]
  · simp

theorem register_mbc2 (hk : k.controller = .mbc2) (s : Mbc2) :
    ((mbc2 s).writeControl a v).register r =
      if ControlRegister.at? .mbc2 a = some r then r.kept k v.toNat else (mbc2 s).register r := by
  have hlow : (v &&& 0x0F).toNat = v.toNat % 16 := toNat_and_mask v 4 rfl
  have hbit : a &&& 0x0100 = 0 ↔ a.toNat.testBit 8 = false := by
    have hpower : (0x0100 : UInt16).toNat = 2 ^ 8 := rfl
    rw [← UInt16.toNat_inj, UInt16.toNat_and, hpower, Nat.and_two_pow]
    cases a.toNat.testBit 8 <;> decide
  simp only [writeControl, Mbc2.writeControl, ControlRegister.at?, hbit]
  split
  · cases hregister : a.toNat.testBit 8 with
    | false => cases r <;> simp [register, ControlRegister.kept, toNat_enables]
    | true =>
      cases r <;> simp [register, ControlRegister.kept, hk, atLeastOne_atLeastOne,
        toNat_atLeastOne, hlow, -UInt8.toNat_and]
  · simp

theorem register_mbc3 (hk : k.controller = .mbc3) (s : Mbc3) :
    ((mbc3 s).writeControl a v).register r =
      if ControlRegister.at? .mbc3 a = some r then r.kept k v.toNat else (mbc3 s).register r := by
  have hbank : (v &&& 0x7F).toNat = v.toNat % 128 := toNat_and_mask v 7 rfl
  have hselect : (v &&& 0x0F).toNat = v.toNat % 16 := toNat_and_mask v 4 rfl
  simp only [writeControl, Mbc3.writeControl, ControlRegister.at?]
  split
  · cases r <;> simp [register, ControlRegister.kept, toNat_enables]
  split
  · cases r <;> simp [register, ControlRegister.kept, hk, atLeastOne_atLeastOne, toNat_atLeastOne,
      hbank, -UInt8.toNat_and]
  split
  · cases r <;> simp [register, ControlRegister.kept, hk, hselect, -UInt8.toNat_and]
  -- What is left is the latch of the clock, which is no register of the banks.
  split <;> cases r <;> simp [register]

theorem toNat_bank {high low : UInt16} {n : Nat} (hhigh : high.toNat = n * 256)
    (hlow : low.toNat < 256) : (high ||| low).toNat = n * 256 + low.toNat := by
  have hsum := Nat.two_pow_add_eq_or_of_lt (i := 8) hlow n
  rw [UInt16.toNat_or, hhigh, Nat.mul_comm, ← hsum]

theorem toNat_ninthBit {bank : UInt16} (h : bank.toNat < 512) :
    (bank &&& 0x100).toNat = bank.toNat / 256 * 256 := by
  have hpower : (0x100 : UInt16).toNat = 2 ^ 8 := rfl
  rw [UInt16.toNat_and, hpower, Nat.and_two_pow, Nat.testBit_eq_decide_div_mod_eq]
  rcases Nat.mod_two_eq_zero_or_one (bank.toNat / 256) with hbit | hbit <;> simp [hbit] <;> omega

theorem toNat_romBank (s : Mbc5) (hbank : s.romBank.toNat < 512) :
    ((s.romBank &&& 0x100) ||| v.toUInt16).toNat = s.romBank.toNat / 256 * 256 + v.toNat ∧
      (((v &&& 0x01).toUInt16 <<< 8) ||| (s.romBank &&& 0xFF)).toNat =
        v.toNat % 2 * 256 + s.romBank.toNat % 256 := by
  have hlow : (s.romBank &&& 0xFF).toNat = s.romBank.toNat % 256 := by
    have hmask : (0xFF : UInt16).toNat = 2 ^ 8 - 1 := rfl
    rw [UInt16.toNat_and, hmask, Nat.and_two_pow_sub_one_eq_mod]
  have hhigh : ((v &&& 0x01).toUInt16 <<< 8).toNat = v.toNat % 2 * 256 := by
    have hbit : v.toNat % 2 ^ 1 * 2 ^ 8 < 2 ^ 16 := by omega
    rw [UInt16.toNat_shiftLeft, UInt8.toNat_toUInt16, toNat_and_mask v 1 rfl, Nat.shiftLeft_eq]
    exact Nat.mod_eq_of_lt hbit
  refine ⟨toNat_bank (toNat_ninthBit hbank) v.toNat_lt, ?_⟩
  rw [toNat_bank hhigh (by omega), hlow]

theorem register_mbc5 (hk : k.controller = .mbc5) {s : Mbc5} (hrumble : s.rumble = k.rumble)
    (hbank : s.romBank.toNat < 512) : ((mbc5 s).writeControl a v).IsOf k ∧
    ((mbc5 s).writeControl a v).register r =
      if ControlRegister.at? .mbc5 a = some r then r.kept k v.toNat else (mbc5 s).register r := by
  obtain ⟨hlow, hhigh⟩ := toNat_romBank v s hbank
  have hv : v.toNat < 256 := v.toNat_lt
  have hmemory : (v &&& if k.rumble then 0x07 else 0x0F).toNat =
      v.toNat % if k.rumble then 8 else 16 := by
    split
    · exact toNat_and_mask v 3 rfl
    · exact toNat_and_mask v 4 rfl
  simp only [writeControl, Mbc5.writeControl, ControlRegister.at?]
  split
  · refine ⟨isOf_mbc5 hk hrumble hbank, ?_⟩
    cases r <;> simp [register, ControlRegister.kept, toNat_enables]
  split
  · refine ⟨isOf_mbc5 hk hrumble (hlow ▸ by omega), ?_⟩
    cases r with
    | program | ninthBit =>
      simp only [register, hlow, ControlRegister.kept, hk, Option.some.injEq, reduceCtorEq, if_true,
        if_false]
      omega
    | enable | memory | mode => simp [register]
  split
  · refine ⟨isOf_mbc5 hk hrumble (hhigh ▸ by omega), ?_⟩
    cases r with
    | program | ninthBit =>
      simp only [register, hhigh, ControlRegister.kept, Option.some.injEq, reduceCtorEq, if_true,
        if_false]
      omega
    | enable | memory | mode => simp [register]
  split
  · refine ⟨isOf_mbc5 hk hrumble hbank, ?_⟩
    cases r <;> simp [register, ControlRegister.kept, hk, hrumble, hmemory, -UInt8.toNat_and]
  · exact ⟨isOf_mbc5 hk hrumble hbank, by simp⟩

theorem register_writeControl {c : BankController} (h : c.IsOf k) :
    (c.writeControl a v).IsOf k ∧ (c.writeControl a v).register r =
      if ControlRegister.at? k.controller a = some r then r.kept k v.toNat else c.register r := by
  obtain ⟨hkind, hmbc5⟩ := h
  cases c with
  | romOnly => exact ⟨⟨hkind, hmbc5⟩, by simp [← hkind, kind, ControlRegister.at?, writeControl]⟩
  | mbc1 s => exact ⟨⟨hkind, nofun⟩, hkind ▸ register_mbc1 a v r hkind.symm s⟩
  | mbc2 s => exact ⟨isOf_mbc2 hkind.symm _, hkind ▸ register_mbc2 a v r hkind.symm s⟩
  | mbc3 s => exact ⟨isOf_mbc3 hkind.symm _, hkind ▸ register_mbc3 a v r hkind.symm s⟩
  | mbc5 s =>
    obtain ⟨hrumble, hbank⟩ := hmbc5 s rfl
    exact hkind ▸ register_mbc5 a v r hkind.symm hrumble hbank

theorem register_writeInternal {c : BankController} (h : c.IsOf k) :
    (c.writeInternal a v).IsOf k ∧ (c.writeInternal a v).register r = c.register r := by
  obtain ⟨hkind, hmbc5⟩ := h
  cases c with
  | mbc2 s =>
    simp only [writeInternal]
    split <;> exact ⟨isOf_mbc2 hkind.symm _, by cases r <;> simp only [register]⟩
  | mbc3 s =>
    simp only [writeInternal]
    split <;> exact ⟨isOf_mbc3 hkind.symm _, by cases r <;> simp only [register]⟩
  | romOnly | mbc1 | mbc5 => exact ⟨⟨hkind, hmbc5⟩, rfl⟩

end BankController

namespace Cartridge
variable {σ : Type} [ExternalMemory σ] {k : CartridgeKind}

def after (c : Cartridge σ) : History → Cartridge σ
  | [] => c
  | w :: earlier => (c.after earlier).write w.address w.value

theorem create_controller {rom : ByteArray} {storage : σ} {c : Cartridge σ}
    (h : create rom storage = .ok c) : c.rom = rom ∧ c.controller = .ofKind c.header.kind := by
  cases hparse : Header.parse rom with
  | error fault =>
    rw [create, hparse] at h
    cases h
  | ok header =>
    simp only [create, hparse, bind, Except.bind, pure, Except.pure] at h
    split at h <;> cases h <;> exact ⟨rfl, rfl⟩

theorem write_rom (c : Cartridge σ) (a : UInt16) (v : UInt8) : (c.write a v).rom = c.rom := by
  unfold write writeRam
  repeat' split
  all_goals rfl

theorem write_register {c : Cartridge σ} (h : c.controller.IsOf k) (a : UInt16) (v : UInt8)
    (r : ControlRegister) : (c.write a v).controller.IsOf k ∧ (c.write a v).controller.register r =
      if ControlRegister.at? k.controller a = some r then r.kept k v.toNat
      else c.controller.register r := by
  unfold write
  split
  · exact BankController.register_writeControl a v r h
  case isFalse ha =>
    simp only [ControlRegister.at?_of_high ha, reduceCtorEq, if_false]
    split
    case isFalse => exact ⟨h, rfl⟩
    unfold writeRam
    repeat' split
    · exact ⟨h, rfl⟩
    · exact ⟨h, rfl⟩
    · exact BankController.register_writeInternal a v r h

theorem after_rom (c : Cartridge σ) (history : History) : (c.after history).rom = c.rom := by
  induction history with
  | nil => rfl
  | cons w earlier ih => exact (write_rom _ _ _).trans ih

theorem after_isOf {c : Cartridge σ} (h : c.controller.IsOf k) (history : History) :
    (c.after history).controller.IsOf k := by
  induction history with
  | nil => exact h
  | cons w earlier ih => exact (write_register ih w.address w.value .enable).1

theorem after_register {c : Cartridge σ} (h : c.controller.IsOf k) (history : History)
    (r : ControlRegister) : (c.after history).controller.register r =
      ((history.lastTo k.controller r).map fun v => r.kept k v.toNat).getD
        (c.controller.register r) :=
  History.eq_lastInto (fun _ => ControlRegister.at? k.controller)
    (fun history => (c.after history).controller.register r) (fun v => r.kept k v.toNat)
    (fun w earlier => (write_register (after_isOf h earlier) w.address w.value r).2) history

theorem read_banked (c : Cartridge σ) {banks : Nat} (hpos : 0 < banks)
    (hsize : c.rom.size = banks * 0x4000) {offset : Nat} (hoffset : offset < 0x4000) :
    c.controller.romBank % banks * 0x4000 + offset < c.rom.size ∧
      c.read (UInt16.ofNat (0x4000 + offset)) =
        byteAt c.rom (c.controller.romBank % banks * 0x4000 + offset) 0xFF := by
  have hbanks : romBanks c.rom = banks := by
    rw [romBanks, romBankSize, hsize, Nat.mul_div_cancel _ (by decide)]
    omega
  have hbank : c.controller.romBank % banks < banks := Nat.mod_lt _ hpos
  have hplace : c.controller.romBank % banks * 0x4000 + offset < c.rom.size := by omega
  have haddress : (UInt16.ofNat (0x4000 + offset)).toNat = 0x4000 + offset :=
    UInt16.toNat_ofNat_of_lt (by rw [UInt16.size]; omega)
  generalize UInt16.ofNat (0x4000 + offset) = a at haddress
  have hlow : ¬a < 0x4000 := by
    rw [UInt16.lt_iff_toNat_lt, haddress]
    simp
  have hhigh : a < 0x8000 := by
    rw [UInt16.lt_iff_toNat_lt, haddress]
    simp; omega
  have hbanked : c.bankedOffset a = c.controller.romBank % banks * 0x4000 + offset := by
    have hwindow : a.toNat - 0x4000 = offset := by omega
    unfold bankedOffset romBankSize
    simp only [hbanks, hwindow]
  refine ⟨hplace, ?_⟩
  rw [read, if_neg hlow, if_pos hhigh, hbanked]

/-- A new cartridge after some writes selects what the last values written to its registers say, in
whatever order they came. In an image of whole banks the window at 4000 shows the selected bank,
counted around the banks there are. -/
theorem selection_after_writes {c : Cartridge σ} (hc : c.controller = .ofKind k)
    (history : History) :
    (c.after history).controller.selection = .documented k (history.lastTo k.controller) ∧
    (∀ other : History, other.lastTo k.controller = history.lastTo k.controller →
      (c.after other).controller.selection = (c.after history).controller.selection) ∧
    ∀ banks, 0 < banks → c.rom.size = banks * 0x4000 → ∀ offset < 0x4000,
      ∃ h : (c.after history).controller.romBank % banks * 0x4000 + offset < c.rom.size,
        (c.after history).read (UInt16.ofNat (0x4000 + offset)) = c.rom.get _ h := by
  have hselection : ∀ history : History, (c.after history).controller.selection =
      .documented k (history.lastTo k.controller) := by
    intro history
    have hkind : c.controller.IsOf k := hc ▸ BankController.isOf_ofKind k
    rw [BankController.selection_eq (after_isOf hkind history), Selection.documented]
    congr 1
    funext r
    rw [after_register hkind, hc, BankController.register_ofKind]
  refine ⟨hselection history, fun other hlast => ?_, ?_⟩
  · rw [hselection, hselection, hlast]
  · intro banks hpos hsize offset hoffset
    have hread := (c.after history).read_banked hpos (by rwa [after_rom]) hoffset
    rw [after_rom] at hread
    exact ⟨hread.1, hread.2.trans (dif_pos hread.1)⟩

/-- A cartridge with two banks of program and no memory of its own. -/
def twoBanks (k : CartridgeKind) : Cartridge VolatileRam where
  rom := ⟨Array.replicate 0x8000 0xFF⟩
  header :=
    { title := ""
      colorFlag := 0
      superFlag := 0
      kind := k
      romSize := 0x8000
      ramSize := 0
      destination := 0
      licensee := 0
      version := 0
      headerChecksum := 0
      globalChecksum := 0 }
  controller := .ofKind k
  storage := {}
  hasRam := false

theorem twoBanks_size (k : CartridgeKind) : (twoBanks k).rom.size = 2 * 0x4000 :=
  Array.size_replicate

theorem mbc1_mode_moves_bits :
    let k : CartridgeKind := { controller := .mbc1, ram := true }
    let history : History := [⟨0x6000, 1⟩, ⟨0x2000, 0x60⟩, ⟨0x4000, 2⟩, ⟨0x1000, 0x0A⟩]
    let c := (twoBanks k).after history
    (twoBanks k).controller = .ofKind k ∧
      c.controller.selection = { romBank := 1, ramBank := 2, ramEnabled := true } ∧
      ∃ h, c.read 0x4123 = (twoBanks k).rom.get 0x4123 h := by
  intro k history c
  have hkind : (twoBanks k).controller = .ofKind k := rfl
  obtain ⟨hselection, -, hread⟩ := selection_after_writes hkind history
  have hselected : c.controller.selection = { romBank := 1, ramBank := 2, ramEnabled := true } :=
    hselection.trans (by decide)
  have hbank : c.controller.romBank = 1 := congrArg Selection.romBank hselected
  refine ⟨hkind, hselected, ?_⟩
  have hbyte := hread 2 (by decide) (twoBanks_size k) 0x123 (by decide)
  rw [hbank] at hbyte
  exact hbyte

end Cartridge
end Handheld
