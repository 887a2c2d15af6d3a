import Mathlib.Data.Nat.Bitwise
import Handheld.Interrupt

/-!
The request that is served first: of those requested and enabled the one of the lowest bit.
-/

namespace Handheld

theorem Interrupt.mask_toNat (i : Interrupt) : i.mask.toNat = 2 ^ i.bit := by
  cases i <;> decide

theorem Interrupt.exists_bit {n : Nat} (h : n < 5) : ∃ i : Interrupt, n = i.bit :=
  ⟨all[n], ofBit?_eq_some_iff.mp (List.getElem?_eq_getElem h)⟩

theorem and_mask_ne_zero {mask : UInt8} {n : Nat} (h : mask.toNat = 2 ^ n) (v : UInt8) :
    (v &&& mask != 0) = v.toNat.testBit n := by
  have hzero : v &&& mask = 0 ↔ (v &&& mask).toNat = 0 := UInt8.toNat_inj.symm
  rw [UInt8.toNat_and, h, Nat.and_two_pow] at hzero
  cases hbit : v.toNat.testBit n <;> simp [hzero, hbit]

theorem Interrupt.and_mask_ne_zero (v : UInt8) (i : Interrupt) :
    (v &&& i.mask != 0) = v.toNat.testBit i.bit := Handheld.and_mask_ne_zero i.mask_toNat v

namespace Interrupts

theorem isPending_eq (s : Interrupts) (i : Interrupt) :
    s.isPending i = s.pending.toNat.testBit i.bit :=
  i.and_mask_ne_zero s.pending

theorem isRequested_eq (s : Interrupts) (i : Interrupt) :
    s.isRequested i = s.requested.toNat.testBit i.bit :=
  i.and_mask_ne_zero s.requested

theorem pending_bit_lt {s : Interrupts} {n : Nat} (h : s.pending.toNat.testBit n) : n < 5 := by
  by_contra hge
  have hfew : s.pending.toNat < 2 ^ 5 := by
    rw [pending, UInt8.toNat_and]
    exact Nat.and_lt_two_pow _ (by decide)
  have hsmall : s.pending.toNat < 2 ^ n :=
    Nat.lt_of_lt_of_le hfew (Nat.pow_le_pow_right (by decide) (Nat.le_of_not_lt hge))
  rw [Nat.testBit_lt_two_pow hsmall] at h
  cases h

theorem pending_testBit (s : Interrupts) {n : Nat} (h : n < 5) :
    s.pending.toNat.testBit n = (s.enabled &&& s.requested).toNat.testBit n := by
  have hbits : ∀ n < 5, interruptBits.toNat.testBit n = true := by decide
  simp [pending, hbits n h, Bool.and_comm]

theorem exists_highestPending {s : Interrupts} (h : s.pending ≠ 0) :
    ∃ i, s.highestPending? = some i := by
  obtain ⟨n, hn⟩ := Nat.exists_testBit_of_ne_zero fun hzero => h (UInt8.toNat_inj.mp hzero)
  obtain ⟨i, rfl⟩ := Interrupt.exists_bit (pending_bit_lt hn)
  rw [← isPending_eq] at hn
  rw [highestPending?, if_neg h, ← Option.isSome_iff_exists, List.find?_isSome]
  exact ⟨i, by cases i <;> decide, hn⟩

theorem highestPending?_lowest {s : Interrupts} {i : Interrupt} (h : s.highestPending? = some i) :
    s.pending ≠ 0 ∧ s.pending.toNat.testBit i.bit ∧
      ∀ n < i.bit, s.pending.toNat.testBit n = false := by
  unfold highestPending? at h
  split at h
  case isTrue => cases h
  case isFalse hne =>
    obtain ⟨hi, before, after, hall, hbefore⟩ := List.find?_eq_some_iff_append.mp h
    have hplace : before.length = i.bit := by
      rw [← Interrupt.ofBit?_eq_some_iff, Interrupt.ofBit?, hall]
      simp
    refine ⟨hne, by rw [← isPending_eq]; exact hi, fun n hn => ?_⟩
    rw [← hplace] at hn
    have hbit : n = before[n].bit := by
      rw [← Interrupt.ofBit?_eq_some_iff, Interrupt.ofBit?, hall, List.getElem?_append_left hn]
      exact List.getElem?_eq_getElem hn
    have hnot := hbefore before[n] (List.getElem_mem hn)
    rw [isPending_eq, ← hbit] at hnot
    simpa using hnot

end Interrupts
end Handheld
