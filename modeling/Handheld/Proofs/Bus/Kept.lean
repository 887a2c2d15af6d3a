import Handheld.Proofs.Bus.Footprint

/-!
Memory that changes at no addresses but some. Whatever runs between two states of the bus, the
addresses that it writes add up, and elsewhere every byte of every memory is as it was.
-/

namespace Handheld

/-- The address that shows again at one of E000 to FDFF. Any other stands for itself. -/
def unecho (a : UInt16) : UInt16 := if 0xE000 ≤ a ∧ a ≤ 0xFDFF then a - 0x2000 else a

def Stackable (a : UInt16) : Prop := 0xC000 ≤ a ∧ a ≤ 0xDFFF ∨ 0xFF80 ≤ a ∧ a ≤ 0xFFFE

theorem Stackable.toNat {a : UInt16} (h : Stackable a) :
    0xC000 ≤ a.toNat ∧ a.toNat ≤ 0xDFFF ∨ 0xFF80 ≤ a.toNat ∧ a.toNat ≤ 0xFFFE := h

theorem unecho_toNat (a : UInt16) : (unecho a).toNat =
    if 0xE000 ≤ a.toNat ∧ a.toNat < 0xFE00 then a.toNat - 0x2000 else a.toNat := by
  have hlow : 0xE000 ≤ a ↔ 0xE000 ≤ a.toNat := UInt16.le_iff_toNat_le
  have hhigh : a ≤ 0xFDFF ↔ a.toNat < 0xFE00 := UInt16.le_iff_toNat_le.trans Nat.lt_succ_iff.symm
  simp only [unecho, hlow, hhigh]
  split
  case isTrue h =>
    exact UInt16.toNat_sub_of_le _ _ (UInt16.le_iff_toNat_le.mpr (Nat.le_trans (by decide) h.1))
  case isFalse => rfl

theorem Stackable.unecho {a : UInt16} (h : Stackable a) : unecho a = a := by
  rw [← UInt16.toNat_inj, unecho_toNat, if_neg]
  have hplace := h.toNat
  omega

theorem Stackable.inMemory {a : UInt16} (h : Stackable a) : Bus.InMemory a := by
  have hplace := Region.holds_ofAddress a
  have hrange := h.toNat
  cases hregion : Region.ofAddress a <;> rw [hregion, Region.Holds] at hplace
  case wram => exact .inl hregion
  case hram => exact .inr hregion
  all_goals omega

theorem Stackable.not_controls {a : UInt16} (h : Stackable a) : ¬Bus.Controls a := by
  have hrange := h.toNat
  simp only [Bus.Controls, UInt16.le_iff_toNat_le, UInt16.reduceToNat, not_or, not_and, not_le]
  omega

/-- No cell of work memory or of the memory beside the registers shows at two addresses, but for the
echo. -/
theorem Cell.at?_unecho {video : Fin 2} {work : Fin 8} (hwork : work ≠ 0) {a a' : UInt16}
    (ha : Bus.InMemory a) (h : Cell.at? video work a' = Cell.at? video work a) :
    unecho a' = unecho a := by
  have hplace : 0xC000 ≤ (unecho a).toNat ∧ (unecho a).toNat < 0xE000 ∨
      0xFF80 ≤ (unecho a).toNat ∧ (unecho a).toNat < 0xFFFF := by
    rw [unecho_toNat]
    rcases ha with ha | ha
    · have hrange := Region.toNat_of_wram ha
      split <;> omega
    · have hrange := Region.toNat_of_hram ha
      split <;> omega
  have hbank : (work : Nat) ≠ 0 := fun hzero => hwork (Fin.ext hzero)
  rw [← UInt16.toNat_inj]
  simp only [Cell.at?, ← unecho_toNat] at h
  generalize (unecho a).toNat = n at *
  generalize (unecho a').toNat = n' at *
  repeat' split at h
  all_goals
    simp only [reduceCtorEq, Option.some.injEq, Cell.video.injEq, Cell.work.injEq,
      Cell.sprite.injEq, Cell.high.injEq, Fin.ext_iff, Fin.val_ofNat] at h
  all_goals omega

variable {σ : Type} [ExternalMemory σ]

namespace Bus

/-- Of all that memories hold, nothing changes but what is reached at some addresses. -/
structure KeepsBut (addresses : List UInt16) (b b' : Bus σ) : Prop where
  reached : b'.Reaches = b.Reaches
  contents : ∀ p, (∀ a ∈ addresses, ¬b.Reaches a p) → b'.contents p = b.contents p
  shown : ∀ a, unecho a ∉ addresses → b'.peek a = b.peek a

namespace KeepsBut
variable {b b' b'' : Bus σ} {first second : List UInt16}

theorem refl (b : Bus σ) : b.KeepsBut [] b := ⟨rfl, fun _ _ => rfl, fun _ _ => rfl⟩

theorem trans (h : b.KeepsBut first b') (h' : b'.KeepsBut second b'') :
    b.KeepsBut (first ++ second) b'' where
  reached := h'.reached.trans h.reached
  contents p hp := by
    simp only [List.mem_append] at hp
    rw [h'.contents p fun a ha => h.reached ▸ hp a (.inr ha),
      h.contents p fun a ha => hp a (.inl ha)]
  shown a ha := by
    rw [List.mem_append, not_or] at ha
    exact (h'.shown a ha.2).trans (h.shown a ha.1)

theorem wramBank (h : b.KeepsBut first b') : b'.wramBank = b.wramBank := by
  have hreached : b'.Reaches 0xD000 (.console (.work b.wramBank 0)) := by
    rw [h.reached]
    rfl
  have hcell : some (Cell.work b'.wramBank 0) = some (Cell.work b.wramBank 0) := hreached
  exact (Cell.work.inj (Option.some.inj hcell)).1

end KeepsBut

theorem perform_keepsBut (b : Bus σ) {e : Event} (hprocessor : e.ofProcessor)
    (hwrite : ∀ a v, e ≠ .write a v) : b.KeepsBut [] (b.perform e) := by
  obtain ⟨hcontents, hreaches⟩ := b.perform_contents_of_other hprocessor hwrite
  have hpeek := b.perform_peek hprocessor hwrite
  exact ⟨hreaches, fun p _ => congrFun hcontents p, fun a _ => congrFun hpeek a⟩

theorem performAll_keepsBut (b : Bus σ) {events : List Event}
    (h : ∀ e ∈ events, e.ofProcessor ∧ ∀ a v, e ≠ .write a v) :
    b.KeepsBut [] (b.performAll events) :=
  performAll_invariant (I := fun b' => b.KeepsBut [] b') (.refl b) fun b' e he hb =>
    hb.trans (b'.perform_keepsBut (h e he).1 (h e he).2)

theorem peek_eq_byte (b : Bus σ) {a : UInt16} (h : InMemory a) :
    ∃ cell, b.cell? a = some cell ∧ b.peek a = b.byte cell := by
  rcases h with h | h
  · obtain ⟨bank, offset, hcell, hplace⟩ := Cell.at?_of_wram _ b.wramBank h
    refine ⟨_, hcell, ?_⟩
    simp only [peek, h, hplace]
    rfl
  · obtain ⟨offset, hcell, hplace⟩ := Cell.at?_of_hram _ b.wramBank h
    refine ⟨_, hcell, ?_⟩
    simp only [peek, h, hplace]
    rfl

/-- Bank 0 of work memory shows at C000, so that it must not show at D000 too. -/
theorem write_keepsBut {b : Bus σ} (hbank : b.wramBank ≠ 0) {a : UInt16} (h : Stackable a)
    (v : UInt8) : b.KeepsBut [a] (b.write a v) := by
  have hmemories := (b.write_replaced h.inMemory v).memories
  have hcells := b.write_cell h.not_controls v
  refine ⟨?_, fun p hp => ?_, fun a' ha' => ?_⟩
  · funext a' p
    cases p with
    | console cell => simp only [Reaches, hcells]
    | cartridge | clock | latch | enable => rw [hmemories]; rfl
  · cases p with
    | console cell => exact b.write_byte_of_ne (hp a (by simp)) v
    | cartridge | clock | latch | enable => rw [hmemories]; rfl
  · by_cases hmemory : InMemory a'
    · obtain ⟨cell, hcell, hpeek⟩ := b.peek_eq_byte hmemory
      obtain ⟨cell', hcell', hpeek'⟩ := (b.write a v).peek_eq_byte hmemory
      have hsame : cell' = cell := Option.some.inj (hcell'.symm.trans (by rw [hcells, hcell]))
      rw [hpeek', hsame, hpeek]
      refine b.write_byte_of_ne (fun hat => ha' ?_) v
      have hunecho := Cell.at?_unecho hbank h.inMemory (hcell.trans hat.symm)
      rw [hunecho, h.unecho]
      exact List.mem_singleton_self a
    · rw [hmemories]
      unfold peek
      split
      case h_3 hregion => exact absurd (.inl hregion) hmemory
      case h_7 hregion => exact absurd (.inr hregion) hmemory
      all_goals rfl

theorem selectedBank_ne_zero (v : UInt8) : selectedBank v ≠ 0 := by
  unfold selectedBank
  split
  case isTrue => decide
  case isFalse h => exact fun hzero => h (congrArg Fin.val hzero)

theorem perform_wramBank {b : Bus σ} (h : b.wramBank ≠ 0) (e : Event) :
    (b.perform e).wramBank ≠ 0 := by
  by_cases hwrite : ∃ a v, e = .write a v
  · obtain ⟨a, v, rfl⟩ := hwrite
    rw [perform, write_wramBank]
    split
    · exact selectedBank_ne_zero v
    · exact h
  · rwa [(b.perform_sameMemory fun a v he => hwrite ⟨a, v, he⟩).wramBank]

theorem performAll_wramBank {b : Bus σ} (h : b.wramBank ≠ 0) (events : List Event) :
    (b.performAll events).wramBank ≠ 0 :=
  performAll_invariant (I := fun b' => b'.wramBank ≠ 0) h fun _ e _ hb => perform_wramBank hb e

end Bus

end Handheld
