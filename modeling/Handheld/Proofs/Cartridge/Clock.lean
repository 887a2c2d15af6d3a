import Handheld.Cartridge.Clock

/-!
What a program reads of the clock, after any accesses to its registers and to the latch. Only what
was written before the latest completed latch shows, and for each register the last of it.
-/

namespace Handheld

def ClockField.number : ClockField → UInt8
  | .seconds => 0x08
  | .minutes => 0x09
  | .hours => 0x0A
  | .dayLow => 0x0B
  | .dayHigh => 0x0C

theorem ClockField.ofNumber?_number (f : ClockField) : ofNumber? f.number = some f := by
  cases f <;> rfl

theorem ClockField.number_of_ofNumber? {n : UInt8} {f : ClockField} (h : ofNumber? n = some f) :
    n = f.number := by
  unfold ofNumber? at h
  split at h <;> cases h <;> rfl

theorem ClockField.ofNumber?_of_outside {n : UInt8} (h : n < 0x08 ∨ 0x0C < n) :
    ofNumber? n = none := by
  cases hfield : ofNumber? n with
  | none => rfl
  | some f =>
    rw [number_of_ofNumber? hfield] at h
    revert h
    cases f <;> decide

namespace ClockRegisters

inductive Access where
  | write (n v : UInt8)
  | latch (v : UInt8)

def perform (c : ClockRegisters) : Access → ClockRegisters
  | .write n v => c.write n v
  | .latch v => c.writeLatch v

def after : List Access → ClockRegisters
  | [] => {}
  | a :: earlier => (after earlier).perform a

def lastWritten (n : UInt8) : List Access → Option UInt8
  | [] => none
  | .write m v :: earlier => if m = n then some v else lastWritten n earlier
  | .latch _ :: earlier => lastWritten n earlier

def lastLatch : List Access → Option UInt8
  | [] => none
  | .write _ _ :: earlier => lastLatch earlier
  | .latch v :: _ => some v

/-- A latch is completed by a latch write of 01, when the one before it was of 00. -/
def completesLatch (a : Access) (earlier : List Access) : Bool :=
  match a with
  | .write _ _ => false
  | .latch v => v == 0x01 && lastLatch earlier == some 0x00

def beforeLatch : List Access → List Access
  | [] => []
  | a :: earlier => if completesLatch a earlier then earlier else beforeLatch earlier

/-- None of some accesses completes a latch, when they follow some others. -/
def Unlatched (earlier : List Access) : List Access → Prop
  | [] => True
  | a :: later => completesLatch a (later ++ earlier) = false ∧ Unlatched earlier later

theorem after_armed (history : List Access) :
    (after history).armed = (lastLatch history == some 0x00) := by
  induction history with
  | nil => rfl
  | cons a earlier ih =>
    cases a with
    | write n v =>
      refine Eq.trans ?_ ih
      simp only [after, perform, write]
      split <;> rfl
    | latch v =>
      simp only [after, perform, writeLatch, lastLatch]
      split
      case isTrue hlatched =>
        have hone : v = 0x01 := by simp_all
        rw [hone]
        rfl
      case isFalse => rfl

theorem after_live (history : List Access) (f : ClockField) :
    (after history).live.get f = (lastWritten f.number history).getD 0 &&& f.mask := by
  induction history with
  | nil => cases f <;> rfl
  | cons a earlier ih =>
    cases a with
    | write n v =>
      simp only [after, perform, write, lastWritten]
      by_cases hn : n = f.number
      · rw [hn, ClockField.ofNumber?_number, if_pos rfl, ClockValues.get_set, if_pos rfl]
        rfl
      · rw [if_neg hn, ← ih]
        split
        case h_1 g hg =>
          have hne : g ≠ f := fun heq => hn (heq ▸ ClockField.number_of_ofNumber? hg)
          rw [ClockValues.get_set, if_neg hne]
        case h_2 => rfl
    | latch v =>
      refine Eq.trans ?_ ih
      simp only [after, perform, writeLatch]
      split <;> rfl

theorem perform_latched (history : List Access) (a : Access) :
    ((after history).perform a).latched =
      if completesLatch a history then (after history).live else (after history).latched := by
  cases a with
  | write n v =>
    simp only [perform, write]
    split <;> rfl
  | latch v =>
    have hcompletes : completesLatch (.latch v) history = (v = 0x01 && (after history).armed) := by
      rw [after_armed]
      rfl
    simp only [perform, writeLatch, hcompletes]
    split <;> rfl

theorem after_latched (history : List Access) (f : ClockField) : (after history).latched.get f =
    (lastWritten f.number (beforeLatch history)).getD 0 &&& f.mask := by
  induction history with
  | nil => cases f <;> rfl
  | cons a earlier ih =>
    rw [after, perform_latched, beforeLatch]
    split
    · exact after_live earlier f
    · exact ih

theorem beforeLatch_append {earlier later : List Access} (h : Unlatched earlier later) :
    beforeLatch (later ++ earlier) = beforeLatch earlier := by
  induction later with
  | nil => rfl
  | cons a later ih =>
    rw [List.cons_append, beforeLatch, h.1]
    exact ih h.2

theorem read_number (c : ClockRegisters) (f : ClockField) :
    c.read f.number = c.latched.get f ||| ~~~f.mask := by
  rw [read, ClockField.ofNumber?_number]

theorem read_of_outside (c : ClockRegisters) {n : UInt8} (h : n < 0x08 ∨ 0x0C < n) :
    c.read n = 0xFF := by
  rw [read, ClockField.ofNumber?_of_outside h]

/-- A clock register reads as the last value written to it before the latest completed latch, with
the bits it does not have set. What is written after that latch does not show while no other is
completed, and there are no other registers. -/
theorem reads_last_before_latch (history : List Access) :
    (∀ f : ClockField, (after history).read f.number =
      (lastWritten f.number (beforeLatch history)).getD 0 &&& f.mask ||| ~~~f.mask) ∧
    (∀ later n, Unlatched history later →
      (after (later ++ history)).read n = (after history).read n) ∧
    ∀ n, n < 0x08 ∨ 0x0C < n →
      (after history).read n = 0xFF ∧ ∀ v, (after history).write n v = after history := by
  have hfields : ∀ (accesses : List Access) (f : ClockField), (after accesses).read f.number =
      (lastWritten f.number (beforeLatch accesses)).getD 0 &&& f.mask ||| ~~~f.mask :=
    fun accesses f => by rw [read_number, after_latched]
  refine ⟨hfields history, fun later n hlater => ?_,
    fun n hn => ⟨read_of_outside _ hn, fun v => ?_⟩⟩
  · cases hfield : ClockField.ofNumber? n with
    | some f =>
      rw [ClockField.number_of_ofNumber? hfield, hfields, hfields, beforeLatch_append hlater]
    | none => simp only [read, hfield]
  · rw [write, ClockField.ofNumber?_of_outside hn]

/-- The second 01 completes no latch, so that the minutes written after the first do not show. -/
def latchedOnce : List Access :=
  [.latch 0x01, .write 0x09 7, .latch 0x01, .write 0x09 0xFF, .latch 0x00, .write 0x08 42]

theorem latchedOnce_read :
    ((0x0D : UInt8) < 0x08 ∨ (0x0C : UInt8) < 0x0D) ∧
      Unlatched latchedOnce [.latch 0x02, .write 0x08 1, .latch 0x00] ∧
      (after latchedOnce).read 0x08 = 0xEA ∧ (after latchedOnce).read 0x09 = 0xFF ∧
      (after ([.latch 0x02, .write 0x08 1, .latch 0x00] ++ latchedOnce)).read 0x08 = 0xEA ∧
      (after latchedOnce).read 0x0D = 0xFF := by
  have hother : (0x0D : UInt8) < 0x08 ∨ (0x0C : UInt8) < 0x0D := by decide
  have hlater : Unlatched latchedOnce [.latch 0x02, .write 0x08 1, .latch 0x00] :=
    ⟨rfl, rfl, rfl, trivial⟩
  obtain ⟨hfields, hunlatched, hnone⟩ := reads_last_before_latch latchedOnce
  have hseconds : (after latchedOnce).read 0x08 = 0xEA := hfields .seconds
  exact ⟨hother, hlater, hseconds, hfields .minutes,
    (hunlatched _ 0x08 hlater).trans hseconds, (hnone 0x0D hother).1⟩

end ClockRegisters
end Handheld
