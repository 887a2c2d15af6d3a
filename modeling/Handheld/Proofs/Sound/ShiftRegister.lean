import Mathlib.Algebra.Ring.Periodic
import Mathlib.Data.Nat.Bitwise
import Mathlib.Dynamics.PeriodicPts.Lemmas
import Mathlib.Tactic.NormNum.Prime
import Handheld.Proofs.Priority
import Handheld.Sound.Noise

/-!
The shift register of the noise channel over any number of clocks. It is a register that feeds the
sum of its low two bits in at the top, of fifteen bits, or in narrow mode of seven. Such a register
forgets nothing, and the bits that it gives out have the longest period they can have.
-/

namespace Handheld
open Function (Periodic minimalPeriod IsPeriodicPt)

namespace BitSequence
variable {o : Nat → Bool}

def Recurs (o : Nat → Bool) (d e f : Nat) : Prop := ∀ n, o (n + d) = (o (n + e) ^^ o (n + f))

theorem xor_cancel (a b c : Bool) : ((a ^^ b) ^^ (b ^^ c)) = (a ^^ c) := by
  cases b <;> simp

theorem Recurs.comm {d e f : Nat} (h : Recurs o d e f) : Recurs o d f e := fun n =>
  (h n).trans (Bool.xor_comm _ _)

theorem Recurs.cancel {d e f a b c : Nat} (h : Recurs o d e f) (he : Recurs o e a b)
    (hf : Recurs o f b c) : Recurs o d a c := fun n => by
  rw [h, he, hf, xor_cancel]

/-- In the sum of the bits that two bits are sums of, the mixed ones cancel. -/
theorem Recurs.double {d e f : Nat} (h : Recurs o d e f) : Recurs o (2 * d) (2 * e) (2 * f) := by
  intro n
  have hfirst : o (n + e + d) = (o (n + 2 * e) ^^ o (n + (e + f))) := by
    rw [h, Nat.two_mul, Nat.add_assoc, Nat.add_assoc]
  have hsecond : o (n + f + d) = (o (n + (e + f)) ^^ o (n + 2 * f)) := by
    rw [h, Nat.two_mul, Nat.add_comm e f, Nat.add_assoc, Nat.add_assoc]
  rw [Nat.two_mul, ← Nat.add_assoc, h, Nat.add_right_comm n d e, Nat.add_right_comm n d f, hfirst,
    hsecond, xor_cancel]

theorem Recurs.pow {d e f : Nat} (h : Recurs o d e f) (k : Nat) :
    Recurs o (2 ^ k * d) (2 ^ k * e) (2 ^ k * f) := by
  induction k with
  | zero => simpa using h
  | succ k ih =>
    have hdouble := ih.double
    rwa [← Nat.mul_assoc, ← Nat.mul_assoc, ← Nat.mul_assoc, ← Nat.pow_succ'] at hdouble

theorem Recurs.shift {d e f : Nat} (h : Recurs o d e f) (k : Nat) :
    Recurs o (k + d) (k + e) (k + f) := by
  intro n
  rw [← Nat.add_assoc, ← Nat.add_assoc, ← Nat.add_assoc]
  exact h (n + k)

def shifted (o : Nat → Bool) (n : Nat) : Bool := o (n + 1)

theorem iterate_shifted (o : Nat → Bool) (p n : Nat) : shifted^[p] o n = o (n + p) := by
  induction p generalizing n with
  | zero => rfl
  | succ p ih => rw [Function.iterate_succ_apply', shifted, ih, Nat.add_right_comm, Nat.add_assoc]

theorem isPeriodicPt_shifted {p : Nat} : IsPeriodicPt shifted p o ↔ Periodic o p := by
  constructor
  · intro h n
    rw [← iterate_shifted o p n, h.eq]
  · intro h
    funext n
    rw [iterate_shifted, h]

/-- A period that no quotient of it by a prime is, is the least. -/
theorem isLeast_period {period : Nat} (hpos : 0 < period) (hperiod : Periodic o period)
    (hprime : ∀ r : Nat, r.Prime → r ∣ period → ¬Periodic o (period / r)) :
    IsLeast {p | 0 < p ∧ Periodic o p} period := by
  have hdvd : minimalPeriod shifted o ∣ period :=
    (isPeriodicPt_shifted.mpr hperiod).minimalPeriod_dvd
  have heq : minimalPeriod shifted o = period := by
    obtain ⟨k, hk⟩ := hdvd
    by_contra hne
    have hk1 : k ≠ 1 := fun h => hne (by rw [hk, h, Nat.mul_one])
    obtain ⟨r, hr, j, hj⟩ := Nat.exists_prime_and_dvd hk1
    have hquotient : period / r = minimalPeriod shifted o * j := by
      rw [hk, hj, Nat.mul_left_comm, Nat.mul_div_cancel_left _ hr.pos]
    refine hprime r hr ⟨minimalPeriod shifted o * j, ?_⟩ (isPeriodicPt_shifted.mp ?_)
    · rw [hk, hj, Nat.mul_left_comm]
    · rw [hquotient]
      exact (Function.isPeriodicPt_minimalPeriod shifted o).mul_const j
  refine ⟨⟨hpos, hperiod⟩, fun p hp => ?_⟩
  rw [← heq]
  exact Nat.le_of_dvd hp.1 (isPeriodicPt_shifted.mpr hp.2).minimalPeriod_dvd

theorem comes_again {period : Nat} (h : IsLeast {p | 0 < p ∧ Periodic o p} period)
    (hmore : 1 < period) (m : Nat) (b : Bool) : ∃ k, m ≤ k ∧ o k = b := by
  obtain ⟨j, hj⟩ : ∃ j, o j = b := by
    by_contra hnone
    have hother : ∀ j, o j = !b := fun j => by
      cases b <;> simpa using fun h => hnone ⟨j, h⟩
    have hconstant : Periodic o 1 := fun j => (hother _).trans (hother j).symm
    exact Nat.not_le_of_lt hmore (h.2 ⟨Nat.one_pos, hconstant⟩)
  have hback : o (j + m * period) = o j := by
    have hmany := h.1.2.nat_mul m
    exact hmany j
  refine ⟨j + m * period, ?_, hback.trans hj⟩
  have hle : m * 1 ≤ m * period := Nat.mul_le_mul_left m h.1.1
  omega

theorem Recurs.periodic {w p : Nat} (h : Recurs o w 0 1) (hw : 0 < w)
    (hback : ∀ n, o (n + (p + 1)) = o (n + 1)) : Periodic o p := by
  intro n
  have hnow := h n
  have hthen := h (n + p)
  rw [show n + p + w = n + (w - 1) + (p + 1) by omega, hback, show n + (w - 1) + 1 = n + w by omega,
    hnow, show n + p + 1 = n + (p + 1) by omega, hback] at hthen
  simp only [Nat.add_zero] at hthen
  revert hthen
  cases o n <;> cases o (n + 1) <;> cases o (n + p) <;> decide

theorem Recurs.returns {d e f : Nat} (h : Recurs o d e f) (he : Recurs o e 1 f) (n : Nat) :
    o (n + d) = o (n + 1) := by
  rw [h, he, Bool.xor_assoc, Bool.xor_self, Bool.xor_false]

theorem Recurs.periodic_seven (h : Recurs o 7 0 1) : Periodic o 127 := by
  have h8 : Recurs o 8 1 2 := h.shift 1
  have h64 : Recurs o 64 1 4 := (h8.pow 3).cancel h8 h8.double
  have h128 : Recurs o 128 8 2 := h64.double.comm
  exact h.periodic (by decide) (h128.returns h8)

theorem Recurs.periodic_fifteen (h : Recurs o 15 0 1) : Periodic o 32767 := by
  have h16 : Recurs o 16 1 2 := h.shift 1
  have h256 : Recurs o 256 1 4 := (h16.pow 4).cancel h16 h16.double
  have h128 : Recurs o 128 16 8 := (h16.pow 3).comm
  have h512 : Recurs o 512 8 2 := h256.double.comm
  have h32768 : Recurs o 32768 16 2 := (h256.pow 7).cancel h128 h512
  exact h.periodic (by decide) (h32768.returns h16)

end BitSequence

namespace ShiftRegister
open BitSequence

/-- A register that shifts right and feeds the sum of its two lowest bits in at bit `top`. -/
def shiftIn (top r : Nat) : Nat := r >>> 1 ||| (r.testBit 0 ^^ r.testBit 1).toNat <<< top

def outputs (top r n : Nat) : Bool := ((shiftIn top)^[n] r).testBit 0

theorem testBit_shiftedBit (b : Bool) (top i : Nat) :
    (b.toNat <<< top).testBit i = (decide (i = top) && b) := by
  cases b with
  | false => simp
  | true =>
    rw [Bool.toNat_true, Nat.one_shiftLeft, Nat.testBit_two_pow, Bool.and_true]
    exact decide_eq_decide.mpr eq_comm

section
variable {top r : Nat}

theorem shiftIn_lt (hr : r < 2 ^ (top + 1)) : shiftIn top r < 2 ^ (top + 1) := by
  refine Nat.or_lt_two_pow ?_ ?_
  · rw [Nat.shiftRight_eq_div_pow]
    exact Nat.lt_of_le_of_lt (Nat.div_le_self _ _) hr
  · rw [Nat.shiftLeft_eq, Nat.pow_succ']
    exact Nat.mul_lt_mul_of_pos_right (Bool.toNat_lt _) (Nat.two_pow_pos top)

theorem testBit_shiftIn {i : Nat} (hi : i ≠ top) :
    (shiftIn top r).testBit i = r.testBit (i + 1) := by
  rw [shiftIn, Nat.testBit_or, Nat.testBit_shiftRight, testBit_shiftedBit, decide_eq_false hi,
    Bool.false_and, Bool.or_false, Nat.add_comm]

theorem testBit_shiftIn_top (hr : r < 2 ^ (top + 1)) :
    (shiftIn top r).testBit top = (r.testBit 0 ^^ r.testBit 1) := by
  rw [shiftIn, Nat.testBit_or, Nat.testBit_shiftRight, testBit_shiftedBit, decide_eq_true rfl,
    Bool.true_and, Nat.add_comm, Nat.testBit_lt_two_pow hr, Bool.false_or]

theorem eq_of_bits_lt {n s : Nat} (hr : r < 2 ^ n) (hs : s < 2 ^ n)
    (h : ∀ i < n, r.testBit i = s.testBit i) : r = s := by
  refine Nat.eq_of_testBit_eq fun i => ?_
  by_cases hi : i < n
  · exact h i hi
  · have hle : 2 ^ n ≤ 2 ^ i := Nat.pow_le_pow_right (by decide) (Nat.le_of_not_lt hi)
    rw [Nat.testBit_lt_two_pow (Nat.lt_of_lt_of_le hr hle),
      Nat.testBit_lt_two_pow (Nat.lt_of_lt_of_le hs hle)]

theorem shiftIn_injective {s : Nat} (htop : 0 < top) (hr : r < 2 ^ (top + 1))
    (hs : s < 2 ^ (top + 1)) (h : shiftIn top r = shiftIn top s) : r = s := by
  have hupper : ∀ i ≠ top, r.testBit (i + 1) = s.testBit (i + 1) := fun i hi => by
    rw [← testBit_shiftIn hi, h, testBit_shiftIn hi]
  refine eq_of_bits_lt hr hs fun i hi => ?_
  cases i with
  | zero =>
    have hfed := testBit_shiftIn_top hr
    rw [h, testBit_shiftIn_top hs, ← hupper 0 (Nat.ne_of_lt htop)] at hfed
    exact (Bool.xor_left_inj.mp hfed).symm
  | succ i => exact hupper i (by omega)

theorem shiftIn_ne_zero (htop : 0 < top) (hr : r < 2 ^ (top + 1)) (h : r ≠ 0) :
    shiftIn top r ≠ 0 := fun hzero =>
  h (shiftIn_injective htop hr (Nat.two_pow_pos _) (hzero.trans (by simp [shiftIn])))

theorem iterate_shiftIn_lt (hr : r < 2 ^ (top + 1)) (n : Nat) :
    (shiftIn top)^[n] r < 2 ^ (top + 1) := by
  induction n with
  | zero => exact hr
  | succ n ih =>
    rw [Function.iterate_succ_apply']
    exact shiftIn_lt ih

theorem iterate_shiftIn_ne_zero (htop : 0 < top) (hr : r < 2 ^ (top + 1)) (h : r ≠ 0) (n : Nat) :
    (shiftIn top)^[n] r ≠ 0 := by
  induction n with
  | zero => exact h
  | succ n ih =>
    rw [Function.iterate_succ_apply']
    exact shiftIn_ne_zero htop (iterate_shiftIn_lt hr n) ih

theorem testBit_iterate {i : Nat} (hi : i ≤ top) (n : Nat) :
    ((shiftIn top)^[n] r).testBit i = outputs top r (n + i) := by
  induction i generalizing n with
  | zero => rfl
  | succ i ih =>
    rw [← testBit_shiftIn (Nat.ne_of_lt hi), ← Function.iterate_succ_apply' (shiftIn top),
      ih (Nat.le_of_lt hi), Nat.succ_add_eq_add_succ]

theorem outputs_recurs (htop : 0 < top) (hr : r < 2 ^ (top + 1)) :
    Recurs (outputs top r) (top + 1) 0 1 := by
  intro n
  have hfed := testBit_shiftIn_top (iterate_shiftIn_lt hr n)
  rw [← Function.iterate_succ_apply' (shiftIn top), testBit_iterate (Nat.le_refl _),
    testBit_iterate (Nat.zero_le _), testBit_iterate htop] at hfed
  rw [← hfed, Nat.succ_add_eq_add_succ]

end

theorem least_period_seven : IsLeast {p | 0 < p ∧ Periodic (outputs 6 0x7F) p} 127 := by
  have hrecurs : Recurs (outputs 6 0x7F) 7 0 1 := outputs_recurs (by decide) (by decide)
  refine isLeast_period (by decide) hrecurs.periodic_seven fun r hr hdvd hquotient => ?_
  have h127 : r = 127 := (Nat.prime_dvd_prime_iff_eq hr (by norm_num)).mp hdvd
  rw [h127] at hquotient
  have hsame : outputs 6 0x7F 7 = outputs 6 0x7F 6 := hquotient 6
  revert hsame
  decide

theorem least_period_fifteen : IsLeast {p | 0 < p ∧ Periodic (outputs 14 0x7FFF) p} 32767 := by
  have h15 : Recurs (outputs 14 0x7FFF) 15 0 1 := outputs_recurs (by decide) (by decide)
  have h16 : Recurs (outputs 14 0x7FFF) 16 1 2 := h15.shift 1
  have h256 : Recurs (outputs 14 0x7FFF) 256 1 4 := (h16.pow 4).cancel h16 h16.double
  refine isLeast_period (by decide) h15.periodic_fifteen fun r hr hdvd hquotient => ?_
  have hfirst : outputs 14 0x7FFF (32767 / r) = outputs 14 0x7FFF 0 := by
    rw [← hquotient 0, Nat.zero_add]
  -- The first bit is one. At each quotient there is a zero, which the recurrences bring down to
  -- bits of few clocks.
  have hfactor : r = 7 ∨ r = 31 ∨ r = 151 := by
    have hproduct : r ∣ 7 * (31 * 151) := hdvd
    rwa [hr.dvd_mul, hr.dvd_mul, Nat.prime_dvd_prime_iff_eq hr (by norm_num),
      Nat.prime_dvd_prime_iff_eq hr (by norm_num), Nat.prime_dvd_prime_iff_eq hr (by norm_num)]
      at hproduct
  rcases hfactor with rfl | rfl | rfl
  · have h512 : Recurs (outputs 14 0x7FFF) 512 2 8 := h256.double
    have h4096 : Recurs (outputs 14 0x7FFF) 4096 16 64 := h256.pow 4
    rw [show 32767 / 7 = 585 + 4096 from rfl, h4096, show 585 + 16 = 89 + 512 from rfl, h512,
      show 585 + 64 = 137 + 512 from rfl, h512] at hfirst
    revert hfirst
    decide +kernel
  · have h1024 : Recurs (outputs 14 0x7FFF) 1024 4 16 := h256.pow 2
    rw [show 32767 / 31 = 33 + 1024 from rfl, h1024] at hfirst
    revert hfirst
    decide +kernel
  · revert hfirst
    decide +kernel

end ShiftRegister

open BitSequence ShiftRegister

namespace Lfsr

theorem feedback_eq (s : Nat) : feedback s = (s.testBit 0 ^^ s.testBit 1).toNat := by
  have hbit : (s ^^^ s >>> 1).testBit 0 = (s.testBit 0 ^^ s.testBit 1) := by
    rw [Nat.testBit_xor, Nat.testBit_shiftRight]
  rw [feedback, Nat.and_one_is_mod, ← hbit, Nat.testBit_zero]
  rcases Nat.mod_two_eq_zero_or_one (s ^^^ s >>> 1) with h | h
  · rw [h]
    rfl
  · rw [h]
    rfl

theorem clock_wide (s : Nat) : clock ⟨s, false⟩ = ⟨shiftIn 14 s, false⟩ := by
  simp only [clock, feedback_eq, shiftIn, Bool.false_eq_true, if_false]

theorem testBit_clock_narrow (s : Nat) {i : Nat} (hi : i < 7) :
    (clock ⟨s, true⟩).state.testBit i =
      if i = 6 then (s.testBit 0 ^^ s.testBit 1) else s.testBit (i + 1) := by
  have hmask : ∀ i < 7, (0xFFBF : Nat).testBit i = !decide (i = 6) := by decide
  have htop : i ≠ 14 := by omega
  simp only [clock, feedback_eq, if_true, Nat.testBit_or, Nat.testBit_and, Nat.testBit_shiftRight,
    testBit_shiftedBit, hmask i hi, decide_eq_false htop, Nat.add_comm 1]
  by_cases hsix : i = 6 <;> simp [hsix]

theorem testBit_mod_128 (s : Nat) {i : Nat} (hi : i < 7) :
    (s % 128).testBit i = s.testBit i := by
  rw [Nat.testBit_mod_two_pow s 7, decide_eq_true hi, Bool.true_and]

/-- In narrow mode the low seven bits are a register of their own. -/
theorem clock_narrow (s : Nat) : (clock ⟨s, true⟩).state % 128 = shiftIn 6 (s % 128) := by
  have hseven : ∀ x, x % 128 < 2 ^ (6 + 1) := fun x => Nat.mod_lt x (by decide)
  refine eq_of_bits_lt (hseven _) (shiftIn_lt (hseven s)) fun i hi => ?_
  rw [testBit_mod_128 _ hi, testBit_clock_narrow s hi]
  split
  case isTrue hsix =>
    rw [hsix, testBit_shiftIn_top (hseven s), testBit_mod_128 s (by decide),
      testBit_mod_128 s (by decide)]
  case isFalse hsix => rw [testBit_shiftIn hsix, testBit_mod_128 s (by omega)]

theorem clockMany_wide (n s : Nat) : clockMany n ⟨s, false⟩ = ⟨(shiftIn 14)^[n] s, false⟩ := by
  induction n generalizing s with
  | zero => rfl
  | succ n ih => rw [clockMany, clock_wide, ih, Function.iterate_succ_apply]

theorem clockMany_narrow (n s : Nat) :
    (clockMany n ⟨s, true⟩).state % 128 = (shiftIn 6)^[n] (s % 128) := by
  induction n generalizing s with
  | zero => rfl
  | succ n ih =>
    rw [clockMany, Function.iterate_succ_apply, ← clock_narrow s]
    exact ih _

end Lfsr

namespace NoiseChannel

theorem lfsr_of_trigger (c : NoiseChannel) {v : UInt8} (hv : v.toNat.testBit 7 = true) :
    (c.writeControl v).lfsr = ⟨0x7FFF, c.narrow⟩ := by
  have htrigger : (v &&& 0x80 != 0) = true := (and_mask_ne_zero (n := 7) (by decide) v).trans hv
  rw [writeControl, htrigger]
  rfl

/-- What is heard of the register from a trigger on: its lowest bit, by the clocks since. -/
def heard (c : NoiseChannel) (v : UInt8) (n : Nat) : Bool :=
  ((c.writeControl v).lfsr.clockMany n).bit

theorem heard_eq (c : NoiseChannel) {v : UInt8} (hv : v.toNat.testBit 7 = true) :
    c.heard v = if c.narrow then outputs 6 0x7F else outputs 14 0x7FFF := by
  funext n
  rw [heard, c.lfsr_of_trigger hv]
  cases c.narrow with
  | false =>
    rw [Lfsr.clockMany_wide]
    rfl
  | true =>
    have hseven : 0 < 7 := by decide
    exact (Lfsr.testBit_mod_128 _ hseven).symm.trans (by rw [Lfsr.clockMany_narrow]; rfl)

/-- The register of the channel from any state, by its clocks. In narrow mode its low seven bits are
a register on their own, and are never all zero unless they were. In wide mode it keeps to fifteen
bits, takes no two states to one, and is never zero unless it was. After a trigger the bits heard
have the longest period that either can have, so that zeros and ones both come again at any time. -/
theorem register_never_sticks (s n : Nat) (hs : s < 2 ^ 15) :
    (Lfsr.clockMany n ⟨s, true⟩).state % 128 = (shiftIn 6)^[n] (s % 128) ∧
    (s % 128 ≠ 0 → (Lfsr.clockMany n ⟨s, true⟩).state % 128 ≠ 0) ∧
    (Lfsr.clockMany n ⟨s, false⟩).state < 2 ^ 15 ∧
    (s ≠ 0 → (Lfsr.clockMany n ⟨s, false⟩).state ≠ 0) ∧
    (∀ s' < 2 ^ 15, (Lfsr.clock ⟨s, false⟩).state = (Lfsr.clock ⟨s', false⟩).state → s = s') ∧
    ∀ (c : NoiseChannel) (v : UInt8), v.toNat.testBit 7 = true →
      IsLeast {p | 0 < p ∧ Periodic (c.heard v) p} (if c.narrow then 127 else 32767) ∧
      ∀ m b, ∃ k, m ≤ k ∧ c.heard v k = b := by
  have hseven : s % 128 < 2 ^ (6 + 1) := Nat.mod_lt _ (by decide)
  rw [Lfsr.clockMany_narrow, Lfsr.clockMany_wide]
  refine ⟨rfl, fun h => iterate_shiftIn_ne_zero (by decide) hseven h n, iterate_shiftIn_lt hs n,
    fun h => iterate_shiftIn_ne_zero (by decide) hs h n, fun s' hs' h => ?_, fun c v hv => ?_⟩
  · rw [Lfsr.clock_wide, Lfsr.clock_wide] at h
    exact shiftIn_injective (by decide) hs hs' h
  · have hleast : IsLeast {p | 0 < p ∧ Periodic (c.heard v) p}
        (if c.narrow then 127 else 32767) := by
      rw [c.heard_eq hv]
      cases c.narrow with
      | false => exact least_period_fifteen
      | true => exact least_period_seven
    have hmore : 1 < if c.narrow then 127 else 32767 := by
      split <;> decide
    exact ⟨hleast, comes_again hleast hmore⟩

theorem narrow_register_runs :
    0x4001 < 2 ^ 15 ∧ 0x4001 % 128 ≠ 0 ∧ (0x80 : UInt8).toNat.testBit 7 = true ∧
      (Lfsr.clockMany 127 ⟨0x4001, true⟩).state % 128 = (shiftIn 6)^[127] 1 ∧
      (Lfsr.clockMany 7 ⟨0x4001, true⟩).state % 128 ≠ 0 ∧
      IsLeast {p | 0 < p ∧ Periodic (heard { narrow := true } 0x80) p} 127 := by
  have hs : 0x4001 < 2 ^ 15 := by decide
  have hlow : 0x4001 % 128 ≠ 0 := by decide
  have hv : (0x80 : UInt8).toNat.testBit 7 = true := by decide
  obtain ⟨halone, -, -, -, -, hperiod⟩ := register_never_sticks 0x4001 127 hs
  obtain ⟨-, hnonzero, -⟩ := register_never_sticks 0x4001 7 hs
  exact ⟨hs, hlow, hv, halone, hnonzero hlow, (hperiod { narrow := true } 0x80 hv).1⟩

end NoiseChannel

end Handheld
