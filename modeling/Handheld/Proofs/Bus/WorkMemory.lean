import Handheld.Proofs.Bus.Events

/-!
Work memory and the memory beside the registers. A byte written there is what a read gives, and only
a write changes what is there or in the cartridge.
-/

namespace Handheld

def Region.Holds (n : Nat) : Region → Prop
  | .cartridge => n < 0x8000 ∨ 0xA000 ≤ n ∧ n < 0xC000
  | .vram => 0x8000 ≤ n ∧ n < 0xA000
  | .wram => 0xC000 ≤ n ∧ n < 0xFE00
  | .oam => 0xFE00 ≤ n ∧ n < 0xFEA0
  | .unusable => 0xFEA0 ≤ n ∧ n < 0xFF00
  | .io => 0xFF00 ≤ n ∧ n < 0xFF80
  | .hram => 0xFF80 ≤ n ∧ n < 0xFFFF
  | .enable => n = 0xFFFF

theorem Region.holds_ofAddress (a : UInt16) : (Region.ofAddress a).Holds a.toNat := by
  have hlt := a.toNat_lt
  simp only [Region.ofAddress, UInt16.lt_iff_toNat_lt]
  repeat' split
  all_goals simp_all [Holds]
  all_goals omega

theorem Region.toNat_of_wram {a : UInt16} (h : Region.ofAddress a = .wram) :
    0xC000 ≤ a.toNat ∧ a.toNat < 0xFE00 := by
  have hplace := Region.holds_ofAddress a
  rw [h] at hplace
  exact hplace

theorem Region.toNat_of_hram {a : UInt16} (h : Region.ofAddress a = .hram) :
    0xFF80 ≤ a.toNat ∧ a.toNat < 0xFFFF := by
  have hplace := Region.holds_ofAddress a
  rw [h] at hplace
  exact hplace

theorem Region.io_range {a : UInt16} (h : Region.ofAddress a = .io) : 0xFF00 ≤ a ∧ a ≤ 0xFF7F := by
  have hplace := Region.holds_ofAddress a
  rw [h] at hplace
  exact ⟨UInt16.le_iff_toNat_le.mpr hplace.1, UInt16.le_iff_toNat_le.mpr (Nat.le_of_lt_succ hplace.2)⟩

namespace Bus

theorem wramOffset_lt (bank : Fin 8) (a : UInt16) : wramOffset bank a < 0x8000 := by
  unfold wramOffset
  dsimp only
  split <;> omega

theorem wramOffset_ne_next {bank : Fin 8} {a b : UInt16} (h : b.toNat = a.toNat + 1) :
    wramOffset bank a ≠ wramOffset bank b := by
  unfold wramOffset
  dsimp only
  split <;> split <;> omega

theorem hram_place {a : UInt16} (h : Region.ofAddress a = .hram) :
    (a - 0xFF80).toNat = a.toNat - 0xFF80 := by
  obtain ⟨hlow, -⟩ := Region.toNat_of_hram h
  exact UInt16.toNat_sub_of_le _ _ (UInt16.le_iff_toNat_le.mpr hlow)

variable {σ : Type} [ExternalMemory σ]

/-- The address is one of the two memories that no register gates. -/
def InMemory (a : UInt16) : Prop := Region.ofAddress a = .wram ∨ Region.ofAddress a = .hram

theorem InMemory.ne_io {a : UInt16} (h : InMemory a) : Region.ofAddress a ≠ .io := by
  rcases h with h | h <;> simp [h]

theorem InMemory.next {a : UInt16} (h : InMemory a) : (a + 1).toNat = a.toNat + 1 := by
  have hlt : a.toNat < 0xFFFF := by
    rcases h with h | h
    · exact Nat.lt_trans (Region.toNat_of_wram h).2 (by decide)
    · exact (Region.toNat_of_hram h).2
  rw [UInt16.toNat_add]
  exact Nat.mod_eq_of_lt (Nat.succ_lt_succ hlt)

theorem peek_write_same (b : Bus σ) {a : UInt16} (h : InMemory a) (v : UInt8) :
    (b.write a v).peek a = v := by
  rcases h with h | h
  · simp only [write, peek, h]
    exact Memory.read_write_self _ (wramOffset_lt _ a) v
  · obtain ⟨hlow, hhigh⟩ := Region.toNat_of_hram h
    have hplace : (a - 0xFF80).toNat < 0x7F := by
      rw [hram_place h]
      omega
    simp only [write, peek, h]
    exact Memory.read_write_self _ hplace v

theorem peek_write_below (b : Bus σ) {a : UInt16} (h : InMemory a) (hnext : InMemory (a + 1))
    (v : UInt8) : (b.write a v).peek (a + 1) = b.peek (a + 1) := by
  have hplace := h.next
  rcases h with h | h <;> rcases hnext with hnext | hnext
  · simp only [write, peek, h, hnext]
    exact Memory.read_write_of_ne _ (wramOffset_ne_next hplace) v
  · simp only [write, peek, h, hnext]
  · simp only [write, peek, h, hnext]
  · obtain ⟨hlow, -⟩ := Region.toNat_of_hram h
    have hne : (a - 0xFF80).toNat ≠ (a + 1 - 0xFF80).toNat := by
      rw [hram_place h, hram_place hnext]
      omega
    simp only [write, peek, h, hnext]
    exact Memory.read_write_of_ne _ hne v

theorem read_eq_peek (b : Bus σ) {a : UInt16} (h : Region.ofAddress a ≠ .io) :
    b.read a = (b.peek a, b) := if_neg h

theorem write_interrupts (b : Bus σ) {a : UInt16} (hio : Region.ofAddress a ≠ .io)
    (henable : Region.ofAddress a ≠ .enable) (v : UInt8) :
    (b.write a v).interrupts = b.interrupts := by
  unfold write
  split
  case h_6 h => exact absurd h hio
  case h_8 h => exact absurd h henable
  all_goals rfl

theorem write_cartridge (b : Bus σ) {a : UInt16} (h : InMemory a) (v : UInt8) :
    (b.write a v).cartridge = b.cartridge := by
  rcases h with h | h <;> simp only [write, h]

theorem pushed_next (sp : UInt16) : sp - 2 + 1 = sp - 1 := by grind

theorem peek_pushed (b : Bus σ) {sp : UInt16}
    (hmemory : ∀ a ∈ [sp - 1, sp - 2], InMemory a) (w : UInt16) :
    let pushed := (b.write (sp - 1) (highByte w)).write (sp - 2) (lowByte w)
    pushed.peek (sp - 1) = highByte w ∧ pushed.peek (sp - 2) = lowByte w ∧
      pushed.cartridge = b.cartridge := by
  obtain ⟨hhigh, hlow⟩ : InMemory (sp - 1) ∧ InMemory (sp - 2) := by
    simpa using hmemory
  have hnext := pushed_next sp
  intro pushed
  refine ⟨?_, peek_write_same _ hlow _, ?_⟩
  · have hkept := peek_write_below (b.write (sp - 1) (highByte w)) hlow (by rwa [hnext])
      (lowByte w)
    rw [hnext] at hkept
    exact hkept.trans (peek_write_same b hhigh _)
  · rw [write_cartridge _ hlow, write_cartridge _ hhigh]

structure SameMemory (b b' : Bus σ) : Prop where
  cartridge : b'.cartridge = b.cartridge
  wram : b'.wram = b.wram
  wramBank : b'.wramBank = b.wramBank
  hram : b'.hram = b.hram

theorem SameMemory.peek {b b' : Bus σ} (h : b.SameMemory b') {a : UInt16}
    (ha : InMemory a ∨ Region.ofAddress a = .cartridge) : b'.peek a = b.peek a := by
  obtain ⟨hcartridge, hwram, hbank, hhram⟩ := h
  rcases ha with (ha | ha) | ha <;> simp only [Bus.peek, ha, hcartridge, hwram, hbank, hhram]

omit [ExternalMemory σ] in
theorem SameMemory.trans {b b' b'' : Bus σ} (h : b.SameMemory b') (h' : b'.SameMemory b'') :
    b.SameMemory b'' :=
  ⟨h'.cartridge.trans h.cartridge, h'.wram.trans h.wram, h'.wramBank.trans h.wramBank,
    h'.hram.trans h.hram⟩

theorem perform_sameMemory (b : Bus σ) {e : Event} (h : ∀ a v, e ≠ .write a v) :
    b.SameMemory (b.perform e) := by
  cases e with
  | cycle =>
    obtain ⟨timer, serial, interrupts, vram, oam, hcycle⟩ := b.cycle_bus
    rw [perform, hcycle]
    exact ⟨rfl, rfl, rfl, rfl⟩
  | read address =>
    obtain ⟨joypad, interrupts, fault, hread⟩ := b.read_frame address
    rw [perform, hread]
    exact ⟨rfl, rfl, rfl, rfl⟩
  | write address v => exact absurd rfl (h address v)
  | switchSpeed =>
    rw [perform, Bus.switchSpeed]
    split <;> exact ⟨rfl, rfl, rfl, rfl⟩
  | fault f =>
    rw [perform, recordFault]
    split <;> exact ⟨rfl, rfl, rfl, rfl⟩
  | acknowledge | sampleButtons | resetDivider | renderSound | hold => exact ⟨rfl, rfl, rfl, rfl⟩

theorem performAll_sameMemory (b : Bus σ) {events : List Event}
    (h : ∀ e ∈ events, ∀ a v, e ≠ .write a v) : b.SameMemory (b.performAll events) :=
  performAll_invariant (I := fun b' => b.SameMemory b') ⟨rfl, rfl, rfl, rfl⟩
    fun b' e he hb => hb.trans (b'.perform_sameMemory (h e he))

end Bus
end Handheld
