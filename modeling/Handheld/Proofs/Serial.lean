import Mathlib.Algebra.Group.Nat.Defs
import Mathlib.Tactic.SplitIfs
import Handheld.Bus.Run
import Handheld.Proofs.Timer

/-!
The serial link over many cycles. How far a transfer has come is told by its age, the cycles since
the control register was written, in place of the count of bits and the count of cycles within a bit;
and what is captured is told by the bytes sent since the host last took them.
-/

namespace Handheld

namespace Serial

inductive Operation where
  | writeData (v : UInt8)
  | writeControl (v : UInt8)
  | step
  | take

def perform (s : Serial) : Operation → Serial
  | .writeData v => s.write 0xFF01 v
  | .writeControl v => s.write 0xFF02 v
  | .step => s.step.1
  | .take => s.takeCaptured.2

def after : List Operation → Serial
  | [] => {}
  | o :: earlier => (after earlier).perform o

def asksInternal (control : UInt8) : Bool := control.toNat.testBit 7 && control.toNat.testBit 0

theorem starts_eq (control : UInt8) : starts control = asksInternal control := by
  have hall : ∀ i : Fin 256, starts (UInt8.ofNat i) = asksInternal (UInt8.ofNat i) := by
    decide +kernel
  simpa using hall ⟨control.toNat, control.toNat_lt⟩

theorem writeControl_of_asks {control : UInt8} (h : asksInternal control) (s : Serial) :
    s.writeControl control =
      { s with
        sc := control, captured := capture s.captured s.sb, bitsLeft := 8, counter := 0 } := by
  rw [writeControl, starts_eq, if_pos h]

theorem writeControl_of_not_asks {control : UInt8} (h : asksInternal control = false) (s : Serial) :
    s.writeControl control = { s with sc := control, bitsLeft := 0 } := by
  simp [writeControl, starts_eq, h]

/-- The cycles since the control register was written, if that started a transfer. -/
def age : List Operation → Option Nat
  | [] => none
  | .writeControl v :: _ => if asksInternal v then some 0 else none
  | .step :: earlier => (age earlier).map (· + 1)
  | _ :: earlier => age earlier

def Aged (s : Serial) : Option Nat → Prop
  | none => s.bitsLeft = 0
  | some n =>
    s.bitsLeft = 8 - n / 512 ∧ (n < 4096 → s.counter = n % 512) ∧
      (s.sc.toNat.testBit 7 ↔ n < 4096)

theorem Aged.of_kept {s s' : Serial} {transfer : Option Nat} (h : s.Aged transfer)
    (hbits : s'.bitsLeft = s.bitsLeft) (hcounter : s'.counter = s.counter) (hsc : s'.sc = s.sc) :
    s'.Aged transfer := by
  cases transfer with
  | none => exact hbits.trans h
  | some n =>
    unfold Aged
    rw [hbits, hcounter, hsc]
    exact h

theorem step_of_still {s : Serial} (h : s.bitsLeft = 0) : s.step = (s, false) := if_pos h

/-- A bit is shifted whenever the age comes to a multiple of the length of a bit, eight times in
all. -/
theorem Aged.step_cases {s : Serial} {n : Nat} (h : s.Aged (some n)) :
    (4096 ≤ n ∧ s.step = (s, false)) ∨
    (n < 4096 ∧ (n + 1) % 512 ≠ 0 ∧ s.step = ({ s with counter := s.counter + 1 }, false)) ∨
    (n + 1 < 4096 ∧ (n + 1) % 512 = 0 ∧ s.step =
      ({ s with sb := s.sb <<< 1 ||| 1, bitsLeft := s.bitsLeft - 1, counter := 0 }, false)) ∨
    (n + 1 = 4096 ∧ s.step =
      ({ s with sb := s.sb <<< 1 ||| 1, sc := s.sc &&& 0x7F, bitsLeft := 0, counter := 0 },
        true)) := by
  obtain ⟨hbits, hcounter, -⟩ := h
  rcases Nat.lt_or_ge n 4096 with hrunning | hdone
  · have hleft : ¬ s.bitsLeft = 0 := by omega
    have hcount := hcounter hrunning
    by_cases hbit : (n + 1) % 512 = 0
    · have hfull : ¬ s.counter + 1 < bitCycles := by simp only [bitCycles]; omega
      by_cases hlast : n + 1 = 4096
      · have hone : s.bitsLeft = 1 := by omega
        refine .inr (.inr (.inr ⟨hlast, ?_⟩))
        simp [step, shift, hfull, hone]
      · have hmore : ¬ s.bitsLeft = 1 := by omega
        refine .inr (.inr (.inl ⟨by omega, hbit, ?_⟩))
        simp [step, shift, hleft, hfull, hmore]
    · have hroom : s.counter + 1 < bitCycles := by simp only [bitCycles]; omega
      refine .inr (.inl ⟨hrunning, hbit, ?_⟩)
      simp [step, hleft, hroom]
  · exact .inl ⟨hdone, step_of_still (by omega)⟩

theorem Aged.step {s : Serial} {n : Nat} (h : s.Aged (some n)) : s.step.1.Aged (some (n + 1)) := by
  have hcases := h.step_cases
  obtain ⟨hbits, hcounter, hasks⟩ := h
  rcases hcases with ⟨hdone, hs⟩ | ⟨hrunning, hbit, hs⟩ | ⟨hmore, hbit, hs⟩ | ⟨hlast, hs⟩
  · rw [hs]
    dsimp only [Aged]
    refine ⟨?_, fun hlt => ?_, hasks.trans ?_⟩ <;> omega
  · rw [hs]
    dsimp only [Aged]
    refine ⟨?_, fun hlt => ?_, hasks.trans ?_⟩ <;> omega
  · rw [hs]
    dsimp only [Aged]
    refine ⟨?_, fun hlt => ?_, hasks.trans ?_⟩ <;> omega
  · have hclear : (s.sc &&& 0x7F).toNat.testBit 7 = false := by
      rw [UInt8.toNat_and, Nat.testBit_and]
      exact Bool.and_false _
    rw [hs, hlast]
    refine ⟨rfl, fun hlt => absurd hlt (Nat.lt_irrefl _), ?_⟩
    rw [hclear]
    decide

theorem Aged.step_requests {s : Serial} {n : Nat} (h : s.Aged (some n)) :
    s.step.2 = decide (n + 1 = 4096) := by
  rcases h.step_cases with ⟨hdone, hs⟩ | ⟨hrunning, hbit, hs⟩ | ⟨hmore, -, hs⟩ | ⟨hlast, hs⟩
  · rw [hs, decide_eq_false (by omega)]
  · rw [hs, decide_eq_false (by omega)]
  · rw [hs, decide_eq_false (by omega)]
  · rw [hs, decide_eq_true hlast]

theorem after_aged (history : List Operation) : (after history).Aged (age history) := by
  induction history with
  | nil => rfl
  | cons o earlier ih =>
    cases o with
    | writeData v => exact ih.of_kept rfl rfl rfl
    | writeControl v =>
      change ((after earlier).writeControl v).Aged (if asksInternal v then some 0 else none)
      cases hasks : asksInternal v with
      | false => rw [writeControl_of_not_asks hasks]; rfl
      | true =>
        have hbit : v.toNat.testBit 7 := by simp_all [asksInternal]
        rw [writeControl_of_asks hasks]
        exact ⟨rfl, fun _ => rfl, by simp [hbit]⟩
    | step =>
      change (after earlier).step.1.Aged ((age earlier).map (· + 1))
      generalize age earlier = transfer at ih ⊢
      cases transfer with
      | none =>
        rw [step_of_still ih]
        exact ih
      | some n => exact ih.step
    | take => exact ih.of_kept rfl rfl rfl

theorem after_requests (history : List Operation) :
    (after history).step.2 = true ↔ age history = some 4095 := by
  have haged := after_aged history
  generalize age history = transfer at haged ⊢
  cases transfer with
  | none => simp [step_of_still haged]
  | some n => simp [haged.step_requests]

theorem toNat_shift_in (v : UInt8) : (v <<< 1 ||| 1).toNat = (2 * v.toNat + 1) % 256 := by
  have hdouble : (v <<< 1).toNat = 2 ^ 1 * (v.toNat % 128) := by
    rw [UInt8.toNat_shiftLeft, Nat.shiftLeft_eq, show (1 : UInt8).toNat % 8 = 1 from rfl]
    omega
  have hor : 2 ^ 1 * (v.toNat % 128) + 1 = 2 ^ 1 * (v.toNat % 128) ||| 1 :=
    Nat.two_pow_add_eq_or_of_lt (by decide) _
  rw [UInt8.toNat_or, hdouble, show (1 : UInt8).toNat = 1 from rfl, ← hor]
  omega

def shifted (v k : Nat) : Nat := (v * 2 ^ k + 2 ^ k - 1) % 256

theorem shifted_zero {v : Nat} (h : v < 256) : shifted v 0 = v := by
  simp [shifted, Nat.mod_eq_of_lt h]

theorem shifted_succ (v k : Nat) : shifted v (k + 1) = (2 * shifted v k + 1) % 256 := by
  have hpos := Nat.two_pow_pos k
  have hdouble : v * 2 ^ (k + 1) + 2 ^ (k + 1) - 1 = 2 * (v * 2 ^ k + 2 ^ k - 1) + 1 := by
    rw [Nat.pow_succ, ← Nat.mul_assoc]
    omega
  unfold shifted
  omega

theorem Aged.step_sb {s : Serial} {n v : Nat} (h : s.Aged (some n))
    (hsb : s.sb.toNat = shifted v (min 8 (n / 512))) :
    s.step.1.sb.toNat = shifted v (min 8 ((n + 1) / 512)) := by
  have hshift : (s.sb <<< 1 ||| 1).toNat = shifted v (min 8 (n / 512) + 1) := by
    rw [toNat_shift_in, hsb, shifted_succ]
  rcases h.step_cases with ⟨hdone, hs⟩ | ⟨hrunning, hbit, hs⟩ | ⟨hmore, hbit, hs⟩ | ⟨hlast, hs⟩
  all_goals rw [hs]
  · rw [hsb, show min 8 ((n + 1) / 512) = min 8 (n / 512) by omega]
  · rw [hsb, show min 8 ((n + 1) / 512) = min 8 (n / 512) by omega]
  · rw [hshift, show min 8 ((n + 1) / 512) = min 8 (n / 512) + 1 by omega]
  · rw [hshift, show min 8 ((n + 1) / 512) = min 8 (n / 512) + 1 by omega]

def sent : List Operation → List UInt8
  | [] => []
  | .take :: _ => []
  | .writeControl v :: earlier =>
    if asksInternal v then sent earlier ++ [(after earlier).sb] else sent earlier
  | _ :: earlier => sent earlier

def kept (n : Nat) : Nat := if n ≤ 65536 then n else 32769 + (n - 65537) % 32768

theorem kept_of_le {n : Nat} (h : n ≤ 65536) : kept n = n := if_pos h

theorem kept_of_lt {n : Nat} (h : 65536 < n) : kept n = 32769 + (n - 65537) % 32768 :=
  if_neg (Nat.not_le.mpr h)

theorem kept_le (n : Nat) : kept n ≤ n ∧ kept n ≤ 65536 ∧ min n 32769 ≤ kept n := by
  rcases Nat.lt_or_ge 65536 n with h | h
  · rw [kept_of_lt h]
    omega
  · rw [kept_of_le h]
    omega

theorem kept_succ (n : Nat) : kept (n + 1) = if kept n = 65536 then 32769 else kept n + 1 := by
  rcases Nat.lt_trichotomy n 65536 with h | rfl | h
  · rw [kept_of_le h, kept_of_le (Nat.le_of_lt h), if_neg (Nat.ne_of_lt h)]
  · rw [kept_of_le (Nat.le_refl _), if_pos rfl, kept_of_lt (Nat.lt_succ_self _)]
  · rw [kept_of_lt h, kept_of_lt (Nat.lt_succ_of_lt h)]
    by_cases hfull : (n - 65537) % 32768 = 32767
    · rw [if_pos (by omega)]
      omega
    · rw [if_neg (by omega)]
      omega

structure Captures (captured : ByteArray) (sent : List UInt8) : Prop where
  suffix : captured.data.toList <:+ sent
  size : captured.size = kept sent.length

theorem Captures.capture {captured : ByteArray} {sent : List UInt8} (h : Captures captured sent)
    (v : UInt8) : Captures (capture captured v) (sent ++ [v]) := by
  have hsize := h.size
  obtain ⟨lost, hlost⟩ := h.suffix
  have hnext : kept (sent ++ [v]).length =
      if captured.size = 65536 then 32769 else captured.size + 1 := by
    rw [List.length_append, List.length_singleton, kept_succ, hsize]
  unfold Serial.capture captureLimit
  split
  case isTrue hfull =>
    -- The older half joins what was lost, and the rest makes room for the byte.
    have hall : captured.data.toList.length = 65536 := hfull
    have hnewer : (captured.extract 32768 65536).data.toList = captured.data.toList.drop 32768 := by
      rw [ByteArray.data_extract, Array.toList_extract, List.extract_eq_take_drop]
      exact List.take_of_length_le (Nat.le_of_eq (by rw [List.length_drop, hall]))
    refine ⟨⟨lost ++ captured.data.toList.take 32768, ?_⟩, ?_⟩
    · rw [ByteArray.data_push, Array.toList_push, ← hlost, ← List.append_assoc,
        List.append_assoc lost, hnewer, List.take_append_drop]
    · rw [hnext, if_pos hfull, ByteArray.size_push, ByteArray.size_extract, hfull]
      rfl
  case isFalse hroom =>
    refine ⟨⟨lost, ?_⟩, ?_⟩
    · rw [ByteArray.data_push, Array.toList_push, ← hlost, List.append_assoc]
    · rw [hnext, if_neg hroom, ByteArray.size_push]

theorem after_captures (history : List Operation) :
    Captures (after history).captured (sent history) := by
  induction history with
  | nil => exact ⟨List.suffix_refl _, rfl⟩
  | cons o earlier ih =>
    cases o with
    | writeData v => exact ih
    | writeControl v =>
      have hwrite : after (.writeControl v :: earlier) = (after earlier).writeControl v := rfl
      cases hasks : asksInternal v with
      | false =>
        rw [hwrite, writeControl_of_not_asks hasks, sent, if_neg (by simp [hasks])]
        exact ih
      | true =>
        rw [hwrite, writeControl_of_asks hasks, sent, if_pos hasks]
        exact ih.capture _
    | step =>
      have hkept : (after earlier).step.1.captured = (after earlier).captured := by
        unfold step shift
        split_ifs <;> rfl
      change Captures (after earlier).step.1.captured (sent earlier)
      rw [hkept]
      exact ih
    | take => exact ⟨List.suffix_refl _, rfl⟩

/-- What the host takes is the last of the bytes sent since it took some before. All are kept up to
the limit; past it their number goes up from one over the half, and back to it from the limit. -/
theorem takeCaptured_last_sent (history : List Operation) :
    let taken := (after history).takeCaptured.1.data.toList
    let n := (sent history).length
    let m := if n ≤ 65536 then n else 32769 + (n - 65537) % 32768
    taken = (sent history).drop (n - m) ∧ taken.length = m ∧
      m ≤ n ∧ m ≤ 65536 ∧ min n 32769 ≤ m := by
  intro taken n m
  have hcaptures := after_captures history
  have hlength : taken.length = m := hcaptures.size
  refine ⟨?_, hlength, kept_le n⟩
  rw [← hlength]
  exact (List.suffix_iff_eq_drop.mp hcaptures.suffix)

end Serial

namespace Bus
open Serial (asksInternal)

section
variable {σ : Type} [ExternalMemory σ]

theorem write_serialControl (b : Bus σ) (control : UInt8) :
    b.write 0xFF02 control = { b with serial := b.serial.writeControl control } := by
  simp [write, writeIo, Region.ofAddress, IoTarget.ofAddress]
  rfl

theorem read_serialData (b : Bus σ) : (b.read 0xFF01).1 = b.serial.sb := by
  simp [read, readIo, Region.ofAddress, IoTarget.ofAddress]
  rfl

theorem read_serialControl (b : Bus σ) : (b.read 0xFF02).1 = b.serial.sc ||| 0x7E := by
  simp [read, readIo, Region.ofAddress, IoTarget.ofAddress]
  rfl

theorem read_serialControl_busy (b : Bus σ) :
    (b.read 0xFF02).1.toNat.testBit 7 = b.serial.sc.toNat.testBit 7 := by
  rw [read_serialControl, UInt8.toNat_or, Nat.testBit_or]
  exact Bool.or_false _

end

variable {σ : Type}

theorem stepSerial_of_still {b : Bus σ} (h : b.serial.bitsLeft = 0) : b.stepSerial = b := by
  simp [stepSerial, Serial.step_of_still h, Interrupts.raiseIf]

theorem runSerial_of_still {b : Bus σ} (h : b.serial.bitsLeft = 0) (n : Nat) :
    b.runSerial n = b := by
  induction n with
  | zero => rfl
  | succ n ih => exact (congrArg stepSerial ih).trans (stepSerial_of_still h)

/-- What some cycles make of a bus on which a transfer of a byte has just been started. -/
structure Transferred (b : Bus σ) (v : UInt8) (n : Nat) (done : Bus σ) : Prop where
  aged : done.serial.Aged (some n)
  sb : done.serial.sb.toNat = Serial.shifted v.toNat (min 8 (n / 512))
  interrupts : done.interrupts = b.interrupts.raiseIf .serial (decide (4096 ≤ n))

theorem runSerial_transferred {b : Bus σ} {v : UInt8} (h : b.Transferred v 0 b) (n : Nat) :
    b.Transferred v n (b.runSerial n) := by
  induction n with
  | zero => exact h
  | succ n ih =>
    have hrequests : (decide (4096 ≤ n) || decide (n + 1 = 4096)) = decide (4096 ≤ n + 1) := by
      rw [← Bool.decide_or, decide_eq_decide]
      omega
    refine ⟨ih.aged.step, ih.aged.step_sb ih.sb, ?_⟩
    change (b.runSerial n).interrupts.raiseIf .serial (b.runSerial n).serial.step.2 = _
    rw [ih.interrupts, ih.aged.step_requests, Interrupts.raiseIf_or, hrequests]

variable [ExternalMemory σ]

/-- A transfer on the internal clock, whatever was done to the link before; another transfer may be
under way. A one is shifted in every 512 cycles, eight times in all, and the cycle of the last one
requests the interrupt. A control byte that does not ask for such a transfer leaves the link still.
And in any history, a cycle requests the interrupt only if it is the 4096th since a start. -/
theorem transfer_shifts_eight_bits (b : Bus σ) (history : List Serial.Operation) (control : UInt8)
    (n : Nat) :
    let link : Bus σ := { b with serial := Serial.after history }
    let written := link.write 0xFF02 control
    let done := written.runSerial n
    let k := min 8 (n / 512)
    (control.toNat.testBit 7 ∧ control.toNat.testBit 0 →
      (done.read 0xFF01).1.toNat = ((link.read 0xFF01).1.toNat * 2 ^ k + 2 ^ k - 1) % 256 ∧
      ((done.read 0xFF02).1.toNat.testBit 7 ↔ n < 4096) ∧
      done.interrupts = (if n < 4096 then link.interrupts else link.interrupts.raise .serial) ∧
      (done.serial.step.2 = true ↔ n + 1 = 4096)) ∧
    (¬(control.toNat.testBit 7 ∧ control.toNat.testBit 0) →
      done = written ∧ (done.read 0xFF01).1 = (link.read 0xFF01).1) ∧
    (link.serial.step.2 = true ↔ Serial.age history = some 4095) ∧
    (Serial.age history = none → link.stepSerial = link) := by
  intro link written done k
  have hwritten : written = { link with serial := link.serial.writeControl control } :=
    link.write_serialControl control
  refine ⟨fun ⟨hseven, hzero⟩ => ?_, fun hnot => ?_, Serial.after_requests history, fun hnone => ?_⟩
  · have hasks : asksInternal control := by simp only [asksInternal, hseven, hzero, Bool.and_self]
    rw [Serial.writeControl_of_asks hasks] at hwritten
    have hstart : written.Transferred link.serial.sb 0 written := by
      rw [hwritten]
      refine ⟨⟨rfl, fun _ => rfl, ?_⟩, (Serial.shifted_zero (UInt8.toNat_lt _)).symm, rfl⟩
      simp [hseven]
    -- The history is done with: only the byte it left in the register still counts.
    have hdone := runSerial_transferred hstart n
    have hinterrupts : written.interrupts = link.interrupts := by rw [hwritten]
    refine ⟨?_, ?_, ?_, ?_⟩
    · rw [read_serialData, read_serialData]
      exact hdone.sb
    · rw [read_serialControl_busy]
      exact hdone.aged.2.2
    · rw [hdone.interrupts, hinterrupts]
      by_cases hn : n < 4096
      · rw [if_pos hn, decide_eq_false (Nat.not_le.mpr hn)]
        rfl
      · rw [if_neg hn, decide_eq_true (Nat.le_of_not_lt hn)]
        rfl
    · rw [hdone.aged.step_requests, decide_eq_true_eq]
  · have hasks : asksInternal control = false := by
      rw [asksInternal, ← Bool.not_eq_true, Bool.and_eq_true]
      exact hnot
    rw [Serial.writeControl_of_not_asks hasks] at hwritten
    have hstill : done = written := runSerial_of_still (by rw [hwritten]) n
    refine ⟨hstill, ?_⟩
    rw [hstill, read_serialData, read_serialData, hwritten]
  · have haged := Serial.after_aged history
    rw [hnone] at haged
    exact stepSerial_of_still haged

/-- A transfer of 41 that has just begun to wait for its first bit. -/
def begun : List Serial.Operation := [.step, .step, .writeControl 0x81, .writeData 0x41]

def begunBus : Bus VolatileRam := { bare with serial := Serial.after begun }

theorem restarted_transfer_shifts :
    Serial.age begun = some 2 ∧
      (((begunBus.write 0xFF02 0x81).runSerial 1100).read 0xFF01).1 = 0x07 ∧
      ((begunBus.write 0xFF02 0x81).runSerial 4095).serial.step.2 = true ∧
      ((begunBus.write 0xFF02 0x81).runSerial 4096).interrupts =
        begunBus.interrupts.raise .serial := by
  have hbits : (0x81 : UInt8).toNat.testBit 7 ∧ (0x81 : UInt8).toNat.testBit 0 := by decide
  obtain ⟨htwo, -⟩ := (transfer_shifts_eight_bits bare begun 0x81 1100).1 hbits
  obtain ⟨-, -, -, hlast⟩ := (transfer_shifts_eight_bits bare begun 0x81 4095).1 hbits
  obtain ⟨-, -, hdone, -⟩ := (transfer_shifts_eight_bits bare begun 0x81 4096).1 hbits
  rw [if_neg (Nat.lt_irrefl _)] at hdone
  exact ⟨rfl, UInt8.toNat_inj.mp htwo, hlast.mpr rfl, hdone⟩

end Bus
end Handheld
