import Handheld.Proofs.Cartridge.Persisting

/-!
What the accesses of the processor leave alone. Every byte of every memory is a place, behind
whatever banks it lies. A write that controls nothing changes at most the place that its address
reaches, and leaves what every address reaches as it was.
-/

namespace Handheld

theorem Memory.write_read {n : Nat} (m : Memory n) (i : Nat) : m.write i (m.read i) = m := by
  by_cases h : i < n
  · rw [write, dif_pos h, read, dif_pos h]
    obtain ⟨⟨bytes⟩, hsize⟩ := m
    exact Memory.ext (congrArg ByteArray.mk (Array.set_getElem_self ..))
  · rw [write, dif_neg h]

variable {σ : Type} [ExternalMemory σ]

namespace BankController
variable (c : BankController)

/-- The place of the memory behind the window that shows at an address, in a store of some size. -/
def shown? (size : Nat) (a : UInt16) : Option Nat :=
  if 0xA000 ≤ a ∧ a < 0xC000 ∧ c.opened then
    match c.nibbles? with
    | some _ => some (nibbleOffset a)
    | none => some (c.ramOffset size a)
  else none

def shownClock? (a : UInt16) : Option ClockField :=
  match c with
  | .mbc3 s =>
    if 0xA000 ≤ a ∧ a < 0xC000 ∧ s.ramEnabled ∧ s.selectsClock then ClockField.ofNumber? s.select
    else none
  | _ => none

def clock : BankController → ClockRegisters
  | .mbc3 s => s.clock
  | _ => {}

theorem writeInternal_selection (a : UInt16) (v : UInt8) :
    (c.writeInternal a v).opened = c.opened ∧ (c.writeInternal a v).ramBank = c.ramBank := by
  cases c with
  | mbc2 s | mbc3 s =>
    simp only [writeInternal]
    split <;> simp only [opened, ramEnabled, selectsMemory, ramBank, and_self]
  | romOnly | mbc1 | mbc5 => exact ⟨rfl, rfl⟩

theorem writeInternal_shown (a : UInt16) (v : UInt8) :
    (c.writeInternal a v).shown? = c.shown? := by
  obtain ⟨hopened, hbank⟩ := c.writeInternal_selection a v
  obtain ⟨-, hnibbles⟩ := c.writeInternal_nibbles a v
  funext size b
  simp only [shown?, ramOffset, hopened, hbank, hnibbles]
  cases c.opened <;> cases c.nibbles? <;> rfl

theorem writeInternal_kept {a : UInt16} (hlow : 0xA000 ≤ a) (hhigh : a < 0xC000) {size i : Nat}
    (h : c.shown? size a ≠ some i) (v : UInt8) :
    (c.writeInternal a v).nibbles?.map (·.read i) = c.nibbles?.map (·.read i) := by
  obtain ⟨-, hnibbles⟩ := c.writeInternal_nibbles a v
  rw [hnibbles]
  split
  case isTrue hopen =>
    cases hmemory : c.nibbles? with
    | none => rfl
    | some m =>
      rw [shown?, if_pos ⟨hlow, hhigh, hopen⟩, hmemory] at h
      exact congrArg some (m.read_write_of_ne (fun heq => h (congrArg some heq)) _)
  case isFalse => rfl

theorem writeInternal_shownClock (a : UInt16) (v : UInt8) :
    (c.writeInternal a v).shownClock? = c.shownClock? := by
  funext b
  cases c with
  | mbc2 s =>
    simp only [writeInternal]
    split <;> simp only [shownClock?]
  | mbc3 s =>
    simp only [writeInternal]
    split <;> rfl
  | romOnly | mbc1 | mbc5 => rfl

theorem writeInternal_clock {a : UInt16} (hlow : 0xA000 ≤ a) (hhigh : a < 0xC000) (v : UInt8) :
    (c.writeInternal a v).clock.latched = c.clock.latched ∧
      ∀ f, c.shownClock? a ≠ some f →
        (c.writeInternal a v).clock.live.get f = c.clock.live.get f := by
  cases c with
  | mbc3 s =>
    simp only [writeInternal]
    split
    case isFalse => exact ⟨rfl, fun _ _ => rfl⟩
    case isTrue hselected =>
      obtain ⟨henabled, hclock⟩ := Bool.and_eq_true_iff.mp hselected
      simp only [clock, ClockRegisters.write, shownClock?, hlow, hhigh, henabled, hclock, and_self,
        if_true]
      cases ClockField.ofNumber? s.select with
      | none => exact ⟨rfl, fun _ _ => rfl⟩
      | some field =>
        refine ⟨rfl, fun f hne => ?_⟩
        rw [ClockValues.get_set, if_neg fun heq => hne (congrArg some heq)]
  | mbc2 s =>
    simp only [writeInternal]
    split <;> simp only [clock, implies_true, and_self]
  | romOnly | mbc1 | mbc5 => exact ⟨rfl, fun _ _ => rfl⟩

end BankController

namespace Cartridge
open ExternalMemory

def shown? (c : Cartridge σ) : UInt16 → Option Nat := c.controller.shown? (size c.storage)

/-- A byte of the memory behind the window: the controller's own, or the store. -/
def memory (c : Cartridge σ) (i : Nat) : UInt8 :=
  (c.controller.nibbles?.map (·.read i)).getD (readByte c.storage i)

theorem write_shownClock (c : Cartridge σ) {a : UInt16} (ha : ¬a < 0x8000) (v : UInt8) :
    (c.write a v).controller.shownClock? = c.controller.shownClock? := by
  rw [write, if_neg ha]
  split
  case isFalse => rfl
  unfold writeRam
  split
  · split <;> rfl
  · exact c.controller.writeInternal_shownClock a v

theorem write_clock (c : Cartridge σ) {a : UInt16} (ha : ¬a < 0x8000) (v : UInt8) :
    (c.write a v).controller.clock.latched = c.controller.clock.latched ∧
      ∀ f, c.controller.shownClock? a ≠ some f →
        (c.write a v).controller.clock.live.get f = c.controller.clock.live.get f := by
  rw [write, if_neg ha]
  split
  case isFalse => exact ⟨rfl, fun _ _ => rfl⟩
  case isTrue hwindow =>
    obtain ⟨hlow, hhigh⟩ : 0xA000 ≤ a ∧ a < 0xC000 := by simpa using hwindow
    unfold writeRam
    split
    · split <;> exact ⟨rfl, fun _ _ => rfl⟩
    · exact c.controller.writeInternal_clock hlow hhigh v

variable {isOpen : σ → Prop} (hlaws : Dependable isOpen) (hsilent : Silent isOpen)
include hlaws

theorem write_shown (c : Cartridge σ) {a : UInt16} (ha : ¬a < 0x8000) (v : UInt8) :
    (c.write a v).shown? = c.shown? := by
  rw [write, if_neg ha]
  split
  case isFalse => rfl
  unfold writeRam
  split
  · split
    · simp only [shown?, BankController.writeExternal_size _ hlaws]
    · rfl
  · simp only [shown?, BankController.writeInternal_shown]

include hsilent

theorem readByte_writeByte_of_ne {s : σ} {i j : Nat} (hi : i < size s) (hne : i ≠ j) (v : UInt8) :
    readByte (writeByte s i v) j = readByte s j := by
  by_cases hopen : isOpen s
  · rw [hlaws.readByte_writeByte v j hopen hi, if_neg hne]
  · rw [hsilent.writeByte i v hopen]

theorem write_memory {c : Cartridge σ} {a : UInt16} (ha : ¬a < 0x8000) {i : Nat}
    (h : c.shown? a ≠ some i) (v : UInt8) : (c.write a v).memory i = c.memory i := by
  rw [write, if_neg ha]
  split
  case isFalse => rfl
  case isTrue hwindow =>
    obtain ⟨hlow, hhigh⟩ : 0xA000 ≤ a ∧ a < 0xC000 := by simpa using hwindow
    rw [writeRam, BankController.writesExternal_eq]
    split
    case isFalse =>
      simp only [memory, c.controller.writeInternal_kept hlow hhigh h]
    case isTrue hstore =>
      split
      case isFalse => rfl
      obtain ⟨hnone, hopen⟩ : c.controller.nibbles? = none ∧ c.controller.opened := by
        simpa using hstore
      rw [shown?, BankController.shown?, if_pos ⟨hlow, hhigh, hopen⟩, hnone] at h
      simp only [memory, hnone, BankController.writeExternal]
      split
      · rfl
      case isFalse hsize =>
        exact readByte_writeByte_of_ne hlaws hsilent (Nat.mod_lt _ (Nat.pos_of_ne_zero hsize))
          (fun heq => h (congrArg some heq)) v

end Cartridge

namespace Bus

/-- A byte that keeps what is put there: of a memory of the console, of the memory or the clock of
the cartridge, or the one that enables interrupts. -/
inductive Place where
  | console (cell : Cell)
  | cartridge (i : Nat)
  | clock (field : ClockField)
  /-- The copy of a clock register that is read. -/
  | latch (field : ClockField)
  | enable
  deriving DecidableEq, Repr

def contents (b : Bus σ) : Place → UInt8
  | .console cell => b.byte cell
  | .cartridge i => b.cartridge.memory i
  | .clock field => b.cartridge.controller.clock.live.get field
  | .latch field => b.cartridge.controller.clock.latched.get field
  | .enable => b.interrupts.enabled

def cell? (b : Bus σ) (a : UInt16) : Option Cell :=
  Cell.at? ⟨b.ppu.vramBank % 2, Nat.mod_lt _ (by decide)⟩ b.wramBank a

def Reaches (b : Bus σ) (a : UInt16) : Place → Prop
  | .console cell => b.cell? a = some cell
  | .cartridge i => b.cartridge.shown? a = some i
  | .clock field => b.cartridge.controller.shownClock? a = some field
  | .latch _ => False
  | .enable => a = 0xFFFF

/-- The registers of a controller or of a unit are at the address. -/
def Controls (a : UInt16) : Prop := a ≤ 0x7FFF ∨ 0xFF00 ≤ a ∧ a ≤ 0xFF7F

theorem not_program_of_not_controls {a : UInt16} (h : ¬Controls a) : ¬a < 0x8000 := by
  simp only [Controls, UInt16.le_iff_toNat_le, UInt16.lt_iff_toNat_lt] at h ⊢
  simp at h ⊢
  omega

theorem ne_io_of_not_controls {a : UInt16} (h : ¬Controls a) : Region.ofAddress a ≠ .io := by
  intro hregion
  have hplace := Region.holds_ofAddress a
  rw [hregion, Region.Holds] at hplace
  simp only [Controls, UInt16.le_iff_toNat_le] at h
  simp at h
  omega

theorem write_byte_of_ne (b : Bus σ) {a : UInt16} {cell : Cell} (h : b.cell? a ≠ some cell)
    (v : UInt8) : (b.write a v).byte cell = b.byte cell := by
  unfold cell? at h
  cases hregion : Region.ofAddress a with
  | vram =>
    obtain ⟨offset, hcell, hplace⟩ := Cell.at?_of_vram _ b.wramBank hregion
    rw [hcell] at h
    cases cell with
    | video bank offset' =>
      simp only [write, hregion, byte, Ppu.writeVram, Vram.byte, Ppu.vramOffset, vramBankSize]
      -- No bank but two is ever selected, but this is not needed: a write of another is dropped.
      refine Memory.read_write_of_ne _ (fun heq => h ?_) v
      have hbank : b.ppu.vramBank % 2 = bank := by omega
      have hoffset : offset = offset' := Fin.ext (by omega)
      simp only [hbank, hoffset]
    | work | sprite | high => simp [write, hregion, byte, Ppu.writeVram]
  | wram =>
    obtain ⟨bank, offset, hcell, hplace⟩ := Cell.at?_of_wram _ b.wramBank hregion
    rw [hcell] at h
    cases cell with
    | work bank' offset' =>
      simp only [write, hregion, byte, hplace]
      refine Memory.read_write_of_ne _ (fun heq => h ?_) v
      have hbank : bank = bank' := Fin.ext (by omega)
      have hoffset : offset = offset' := Fin.ext (by omega)
      rw [hbank, hoffset]
    | video | sprite | high => simp [write, hregion, byte]
  | oam =>
    obtain ⟨offset, hcell, hplace⟩ := Cell.at?_of_oam _ b.wramBank hregion
    rw [hcell] at h
    cases cell with
    | sprite offset' =>
      simp only [write, hregion, byte, Ppu.writeOam, hplace]
      exact Memory.read_write_of_ne _ (fun heq => h (by rw [Fin.ext heq])) v
    | video | work | high => simp [write, hregion, byte, Ppu.writeOam]
  | hram =>
    obtain ⟨offset, hcell, hplace⟩ := Cell.at?_of_hram _ b.wramBank hregion
    rw [hcell] at h
    cases cell with
    | high offset' =>
      simp only [write, hregion, byte, hplace]
      exact Memory.read_write_of_ne _ (fun heq => h (by rw [Fin.ext heq])) v
    | video | work | sprite => simp [write, hregion, byte]
  | cartridge | unusable | enable => cases cell <;> simp [write, hregion, byte]
  | io =>
    obtain ⟨hwram, hhram, -, hvram, hoam⟩ := b.writeIo_memories a v
    cases cell <;> simp [write, hregion, byte, hwram, hhram, hvram, hoam]

/-- The second bus is the first one with a byte at an address of its memories, and otherwise the
same. -/
structure Replaced (b b' : Bus σ) (a : UInt16) (v : UInt8) : Prop where
  shown : b'.peek a = v
  memories : b' = { b with wram := b'.wram, hram := b'.hram }
  bytes : ∀ cell, b.cell? a ≠ some cell → b'.byte cell = b.byte cell

theorem write_replaced (b : Bus σ) {a : UInt16} (h : InMemory a) (v : UInt8) :
    b.Replaced (b.write a v) a v where
  shown := b.peek_write_same h v
  memories := by rcases h with h | h <;> simp only [write, h]
  bytes _ hcell := b.write_byte_of_ne hcell v

theorem write_peek (b : Bus σ) {a : UInt16} (h : InMemory a) : b.write a (b.peek a) = b := by
  rcases h with h | h <;> simp only [write, peek, h, Memory.write_read]

theorem write_enabled_of_ne (b : Bus σ) {a : UInt16} (hregister : ¬Controls a) (h : a ≠ 0xFFFF)
    (v : UInt8) : (b.write a v).interrupts.enabled = b.interrupts.enabled := by
  have henable : Region.ofAddress a ≠ .enable := by
    intro hregion
    have hplace := Region.holds_ofAddress a
    rw [hregion, Region.Holds] at hplace
    exact h (UInt16.toNat_inj.mp hplace)
  rw [write_interrupts b (ne_io_of_not_controls hregister) henable v]

theorem write_cell (b : Bus σ) {a : UInt16} (h : ¬Controls a) (v : UInt8) :
    (b.write a v).cell? = b.cell? := by
  have hvideo : a ≠ 0xFF4F := by
    rintro rfl
    exact h (.inr (by decide))
  have hwork : a ≠ 0xFF70 := by
    rintro rfl
    exact h (.inr (by decide))
  obtain ⟨-, hbank⟩ := b.write_vramBank a v
  rw [if_neg fun both => hvideo both.2] at hbank
  funext a'
  simp only [cell?, hbank, write_wramBank, hwork, and_false, if_false]

section
variable {isOpen : σ → Prop} (hlaws : Dependable isOpen) (hsilent : Silent isOpen)
include hlaws

theorem write_reaches (b : Bus σ) {a : UInt16} (h : ¬Controls a) (v : UInt8) :
    (b.write a v).Reaches = b.Reaches := by
  funext a' p
  cases p with
  | console cell => simp only [Reaches, b.write_cell h v]
  | cartridge i =>
    simp only [Reaches, write_reaches_cartridge,
      Cartridge.write_shown hlaws _ (not_program_of_not_controls h) v]
  | clock field =>
    simp only [Reaches, write_reaches_cartridge,
      b.cartridge.write_shownClock (not_program_of_not_controls h) v]
  | latch | enable => rfl

include hsilent

theorem write_contents (b : Bus σ) {a : UInt16} (hregister : ¬Controls a) {p : Place}
    (h : ¬b.Reaches a p) (v : UInt8) : (b.write a v).contents p = b.contents p := by
  cases p with
  | console cell => exact b.write_byte_of_ne h v
  | cartridge i =>
    simp only [contents, write_reaches_cartridge]
    exact Cartridge.write_memory hlaws hsilent (not_program_of_not_controls hregister) h v
  | clock field =>
    simp only [contents, write_reaches_cartridge]
    exact (b.cartridge.write_clock (not_program_of_not_controls hregister) v).2 field h
  | latch field =>
    simp only [contents, write_reaches_cartridge,
      (b.cartridge.write_clock (not_program_of_not_controls hregister) v).1]
  | enable => exact b.write_enabled_of_ne hregister h v

end

def Event.written? : Event → Option UInt16
  | .write a _ => some a
  | _ => none

def written (events : List Event) : List UInt16 := events.filterMap Event.written?

theorem raiseIf_enabled (s : Interrupts) (irq : Interrupt) (wanted : Bool) :
    (s.raiseIf irq wanted).enabled = s.enabled := by
  unfold Interrupts.raiseIf
  split <;> rfl

omit [ExternalMemory σ] in
theorem readIo_enabled (b : Bus σ) (a : UInt16) :
    (b.readIo a).2.interrupts.enabled = b.interrupts.enabled := by
  unfold readIo
  split
  case h_1 => exact raiseIf_enabled ..
  case h_12 =>
    unfold recordFault
    dsimp only
    split <;> rfl
  all_goals rfl

theorem perform_enabled (b : Bus σ) {e : Event} (hprocessor : e.ofProcessor)
    (hwrite : ∀ a v, e ≠ .write a v) :
    (b.perform e).interrupts.enabled = b.interrupts.enabled := by
  cases e with
  | cycle | renderSound | hold => cases hprocessor
  | write a v => exact absurd rfl (hwrite a v)
  | read a =>
    rw [perform, read]
    split
    · exact b.readIo_enabled a
    · rfl
  | sampleButtons | resetDivider => exact raiseIf_enabled ..
  | switchSpeed =>
    rw [perform, switchSpeed]
    split <;> rfl
  | fault f =>
    rw [perform, recordFault]
    split <;> rfl
  | acknowledge irq => rfl

theorem Event.isCycle_of_processor {e : Event} (h : e.ofProcessor) : e.isCycle = false := by
  cases e with
  | cycle => cases h
  | _ => rfl

/-- An access that writes nothing changes no place, nor what an address reaches. -/
theorem perform_contents_of_other (b : Bus σ) {e : Event} (hprocessor : e.ofProcessor)
    (hwrite : ∀ a v, e ≠ .write a v) :
    (b.perform e).contents = b.contents ∧ (b.perform e).Reaches = b.Reaches := by
  have hcycle := Event.isCycle_of_processor hprocessor
  obtain ⟨hcartridge, hwram, hbank, hhram⟩ := b.perform_sameMemory hwrite
  obtain ⟨hppu, -⟩ := perform_other (b := b) hcycle hwrite
  have henabled := b.perform_enabled hprocessor hwrite
  refine ⟨funext fun p => ?_, funext fun a => funext fun p => ?_⟩
  · cases p with
    | console cell => cases cell <;> simp only [contents, byte, hppu, hwram, hhram]
    | cartridge | clock | latch => simp only [contents, hcartridge]
    | enable => exact henabled
  · cases p <;> simp only [Reaches, cell?, hppu, hbank, hcartridge]

theorem perform_peek (b : Bus σ) {e : Event} (hprocessor : e.ofProcessor)
    (hwrite : ∀ a v, e ≠ .write a v) : (b.perform e).peek = b.peek := by
  have hcycle := Event.isCycle_of_processor hprocessor
  obtain ⟨hcartridge, hwram, hbank, hhram⟩ := b.perform_sameMemory hwrite
  obtain ⟨hppu, -⟩ := perform_other (b := b) hcycle hwrite
  have henabled := b.perform_enabled hprocessor hwrite
  funext a
  simp only [peek, hcartridge, hwram, hbank, hhram, hppu, henabled]

/-- Accesses that control nothing leave what every address reaches, and change no place but those
that the addresses they write reach. -/
theorem performAll_contents {isOpen : σ → Prop} (hlaws : Dependable isOpen)
    (hsilent : Silent isOpen) {events : List Event} {b : Bus σ}
    (hprocessor : ∀ e ∈ events, e.ofProcessor) (hregister : ∀ a ∈ written events, ¬Controls a) :
    (b.performAll events).Reaches = b.Reaches ∧ ∀ p, (∀ a ∈ written events, ¬b.Reaches a p) →
      (b.performAll events).contents p = b.contents p := by
  induction events generalizing b with
  | nil => exact ⟨rfl, fun _ _ => rfl⟩
  | cons e rest ih =>
    have hrest : ∀ e ∈ rest, e.ofProcessor := fun e he => hprocessor e (by simp [he])
    by_cases hwrite : ∃ a v, e = .write a v
    · obtain ⟨a, v, rfl⟩ := hwrite
      have hwritten : written (.write a v :: rest) = a :: written rest := rfl
      simp only [hwritten, List.forall_mem_cons] at hregister ⊢
      have hreaches := b.write_reaches hlaws hregister.1 v
      obtain ⟨hlater, hkept⟩ := ih (b := b.write a v) hrest hregister.2
      refine ⟨hlater.trans hreaches, fun p h => ?_⟩
      have hrest' := hkept p (by simpa only [hreaches] using h.2)
      exact hrest'.trans (b.write_contents hlaws hsilent hregister.1 h.1 v)
    · have hother : ∀ a v, e ≠ .write a v := fun a v he => hwrite ⟨a, v, he⟩
      have hwritten : written (e :: rest) = written rest := by
        cases e with
        | write a v => exact absurd rfl (hother a v)
        | _ => rfl
      rw [hwritten] at hregister ⊢
      obtain ⟨hsame, hreaches⟩ := b.perform_contents_of_other (hprocessor e (by simp)) hother
      obtain ⟨hlater, hkept⟩ := ih (b := b.perform e) hrest hregister
      refine ⟨hlater.trans hreaches, fun p h => ?_⟩
      have hrest' := hkept p (by simpa only [hreaches] using h)
      exact hrest'.trans (congrFun hsame p)

end Bus
end Handheld
