import Handheld.Bus.Run
import Handheld.Proofs.Bus.Reachable

/-!
The timer over many cycles. While nothing is written to it the bit it samples is that of its divider,
so TIMA counts once whenever the divider comes to a multiple of the period; and what TIMA shows, and
whether it ran over, follows from the number of counts.
-/

namespace Handheld

namespace Timer

/-- The timers that come of a fresh one by writes, by overwriting the divider and by cycles. A read
leaves a timer as it is. -/
inductive Reachable : Timer → Prop where
  | start : Reachable {}
  | write {t : Timer} (h : Reachable t) (address : UInt16) (v : UInt8) :
      Reachable (t.write address v).1
  | setDiv {t : Timer} (h : Reachable t) (div : UInt16) : Reachable (t.setDiv div).1
  | step {t : Timer} (h : Reachable t) : Reachable t.step.1

def Settled (t : Timer) : Prop := t.lastSignal = t.signal

theorem increment_cases (t : Timer) :
    (t.tima.toNat = 255 ∧ t.increment = ({ t with tima := t.tma }, true)) ∨
    (t.tima.toNat < 255 ∧ (t.tima + 1).toNat = t.tima.toNat + 1 ∧
      t.increment = ({ t with tima := t.tima + 1 }, false)) := by
  unfold increment
  by_cases hfull : t.tima = 0xFF
  · exact .inl ⟨congrArg UInt8.toNat hfull, if_pos hfull⟩
  · have hlt : t.tima.toNat < 255 := by
      have hne : t.tima.toNat ≠ 255 := fun h => hfull (UInt8.toNat_inj.mp h)
      have hsize := t.tima.toNat_lt
      omega
    have hnext : (t.tima + 1).toNat = t.tima.toNat + 1 := by
      rw [UInt8.toNat_add]
      exact Nat.mod_eq_of_lt (Nat.succ_lt_succ hlt)
    exact .inr ⟨hlt, hnext, if_neg hfull⟩

theorem sample_settled (t : Timer) : t.sample.1.Settled := by
  unfold sample
  dsimp only
  split
  · unfold increment
    split <;> rfl
  · rfl

theorem write_settled {t : Timer} (h : t.Settled) (address : UInt16) (v : UInt8) :
    (t.write address v).1.Settled := by
  unfold write
  split
  · exact sample_settled _
  · exact h
  · exact h
  · exact sample_settled _
  · exact h

theorem Reachable.settled {t : Timer} (h : t.Reachable) : t.Settled := by
  induction h with
  | start => rfl
  | write _ address v ih => exact write_settled ih address v
  | setDiv _ div ih => exact sample_settled _
  | step _ ih => exact sample_settled _

theorem period_cases (t : Timer) :
    (rateBit t.tac = 9 ∧ t.period = 1024) ∨ (rateBit t.tac = 3 ∧ t.period = 16) ∨
      (rateBit t.tac = 5 ∧ t.period = 64) ∨ (rateBit t.tac = 7 ∧ t.period = 256) := by
  unfold period rateBit
  split <;> simp

/-- The divider comes to a multiple of the period with the next cycle. -/
def Due (t : Timer) : Prop := (t.div.toNat + 1) % t.period = 0

instance (t : Timer) : Decidable t.Due := inferInstanceAs (Decidable (_ = _))

theorem toNat_div_add_one (t : Timer) : (t.div + 1).toNat = (t.div.toNat + 1) % 65536 :=
  UInt16.toNat_add ..

theorem bit_falls (t : Timer) :
    (t.div.toNat.testBit (rateBit t.tac) ∧ (t.div + 1).toNat.testBit (rateBit t.tac) = false) ↔
      t.Due := by
  have hlt := t.div.toNat_lt
  rw [toNat_div_add_one, Due]
  simp only [Nat.testBit_eq_decide_div_mod_eq, decide_eq_true_eq, decide_eq_false_iff_not]
  rcases t.period_cases with ⟨hbit, hperiod⟩ | ⟨hbit, hperiod⟩ | ⟨hbit, hperiod⟩ | ⟨hbit, hperiod⟩
  all_goals
    rw [hbit, hperiod]
    omega

theorem step_of_settled {t : Timer} (h : t.Settled) :
    let next := { t with div := t.div + 1, lastSignal := signal { t with div := t.div + 1 } }
    t.step = if t.enabled ∧ t.Due then next.increment else (next, false) := by
  intro next
  have hnext : next.signal = (t.enabled && (t.div + 1).toNat.testBit (rateBit t.tac)) := rfl
  have hfalls : (t.signal && !next.signal) = true ↔ t.enabled ∧ t.Due := by
    rw [← t.bit_falls, hnext, signal]
    cases t.enabled <;> simp
  have hlast : t.lastSignal = t.signal := h
  have hstep : t.step = if t.signal && !next.signal then next.increment else (next, false) := by
    rw [← hlast]
    rfl
  simp only [hstep, hfalls]

/-- The counts of TIMA in some cycles: the multiples of the period that the divider comes to. -/
def counts (t : Timer) (n : Nat) : Nat :=
  if t.enabled then (t.div.toNat + n) / t.period - t.div.toNat / t.period else 0

/-- TIMA after some counts. It is reloaded at the count that makes it run over, and again whenever
it ran from the reload value over. -/
def counted (tima reload k : Nat) : Nat :=
  if k < 256 - tima then tima + k else reload + (k - (256 - tima)) % (256 - reload)

theorem counts_zero (t : Timer) : t.counts 0 = 0 := by simp [counts]

theorem counts_succ {t t' : Timer} (hdiv : t'.div.toNat = (t.div.toNat + 1) % 65536)
    (htac : t'.tac = t.tac) (n : Nat) :
    t.counts (n + 1) = t'.counts n + (if t.enabled ∧ t.Due then 1 else 0) := by
  have hlt := t.div.toNat_lt
  have henabled : t'.enabled = t.enabled := by rw [enabled, enabled, htac]
  have hperiod : t'.period = t.period := by rw [period, period, htac]
  unfold counts
  rw [henabled, hperiod, hdiv]
  cases t.enabled
  · simp
  · simp only [if_true, true_and, Due]
    rcases t.period_cases with ⟨-, h⟩ | ⟨-, h⟩ | ⟨-, h⟩ | ⟨-, h⟩
    all_goals
      rw [h]
      split <;> omega

theorem counted_zero {tima : Nat} (h : tima < 256) (reload : Nat) : counted tima reload 0 = tima := by
  rw [counted, if_pos (Nat.sub_pos_of_lt h), Nat.add_zero]

theorem counted_succ {tima : Nat} (h : tima < 255) (reload k : Nat) :
    counted tima reload (k + 1) = counted (tima + 1) reload k := by
  have hroom : 256 - tima = 256 - (tima + 1) + 1 := by omega
  unfold counted
  rw [hroom, Nat.add_sub_add_right]
  simp only [Nat.add_lt_add_iff_right, Nat.add_right_comm, Nat.add_assoc]

theorem counted_reload (reload k : Nat) :
    counted 255 reload (k + 1) = counted reload reload k := by
  unfold counted
  rw [if_neg (by omega), Nat.add_sub_cancel]
  split
  case isTrue hk => rw [Nat.mod_eq_of_lt hk]
  case isFalse hk => rw [Nat.mod_eq_sub_mod (Nat.le_of_not_lt hk)]

/-- What some cycles make of a timer, and whether they request an interrupt. -/
structure Elapsed (n : Nat) (t : Timer) (done : Timer × Bool) : Prop where
  div : done.1.div.toNat = (t.div.toNat + n) % 65536
  tima : done.1.tima.toNat = counted t.tima.toNat t.tma.toNat (t.counts n)
  tma : done.1.tma = t.tma
  tac : done.1.tac = t.tac
  settled : done.1.Settled
  raised : done.2 = true ↔ 256 - t.tima.toNat ≤ t.counts n

theorem elapsed_zero {t : Timer} (h : t.Settled) : Elapsed 0 t (t, false) where
  div := (Nat.mod_eq_of_lt t.div.toNat_lt).symm
  tima := by rw [counts_zero, counted_zero t.tima.toNat_lt]
  tma := rfl
  tac := rfl
  settled := h
  raised := by
    have hlt := t.tima.toNat_lt
    rw [counts_zero]
    simp
    omega

/-- What a cycle makes of a timer: the divider moves on, and if a count is due TIMA counts. -/
theorem step_cases {t : Timer} (h : t.Settled) :
    t.step.1.div.toNat = (t.div.toNat + 1) % 65536 ∧ t.step.1.tma = t.tma ∧ t.step.1.tac = t.tac ∧
    ((¬(t.enabled ∧ t.Due) ∧ t.step.1.tima = t.tima ∧ t.step.2 = false) ∨
      (t.enabled ∧ t.Due ∧ t.tima.toNat = 255 ∧ t.step.1.tima = t.tma ∧ t.step.2 = true) ∨
      (t.enabled ∧ t.Due ∧ t.tima.toNat < 255 ∧ t.step.1.tima.toNat = t.tima.toNat + 1 ∧
        t.step.2 = false)) := by
  have hstep := step_of_settled h
  dsimp only at hstep
  split at hstep
  case isFalse hnot =>
    rw [hstep]
    exact ⟨t.toNat_div_add_one, rfl, rfl, .inl ⟨hnot, rfl, rfl⟩⟩
  case isTrue hdue =>
    rcases increment_cases { t with
        div := t.div + 1, lastSignal := signal { t with div := t.div + 1 } } with
      ⟨hfull, hinc⟩ | ⟨hroom, hnext, hinc⟩
    · rw [hstep, hinc]
      exact ⟨t.toNat_div_add_one, rfl, rfl, .inr (.inl ⟨hdue.1, hdue.2, hfull, rfl, rfl⟩)⟩
    · rw [hstep, hinc]
      exact ⟨t.toNat_div_add_one, rfl, rfl, .inr (.inr ⟨hdue.1, hdue.2, hroom, hnext, rfl⟩)⟩

theorem Elapsed.after_step {t : Timer} (h : t.Settled) {n : Nat} {done : Timer × Bool}
    (hdone : Elapsed n t.step.1 done) : Elapsed (n + 1) t (done.1, t.step.2 || done.2) := by
  obtain ⟨hdiv, htma, htac, hcases⟩ := step_cases h
  have hcounts := counts_succ hdiv htac n
  have htima := hdone.tima
  have hraised := hdone.raised
  rw [htma] at htima
  refine ⟨?_, ?_, hdone.tma.trans htma, hdone.tac.trans htac, hdone.settled, ?_⟩
  · rw [hdone.div, hdiv]
    omega
  · rw [htima, hcounts]
    rcases hcases with ⟨hnot, hsame, -⟩ | ⟨hon, hdue, hfull, hreloaded, -⟩ |
        ⟨hon, hdue, hroom, hcounted, -⟩
    · rw [if_neg hnot, hsame, Nat.add_zero]
    · rw [if_pos ⟨hon, hdue⟩, hfull, hreloaded, counted_reload]
    · rw [if_pos ⟨hon, hdue⟩, hcounted, counted_succ hroom]
  · rw [Bool.or_eq_true, hraised, hcounts]
    rcases hcases with ⟨hnot, hsame, hno⟩ | ⟨hon, hdue, hfull, -, hyes⟩ |
        ⟨hon, hdue, hroom, hcounted, hno⟩
    · rw [if_neg hnot, hsame, hno]
      simp
    · rw [if_pos ⟨hon, hdue⟩, hfull, hyes]
      simp
    · rw [if_pos ⟨hon, hdue⟩, hcounted, hno]
      simp
      omega

theorem stepMany_elapsed {t : Timer} (h : t.Settled) (n : Nat) : Elapsed n t (stepMany n t) := by
  induction n generalizing t with
  | zero => exact elapsed_zero h
  | succ n ih => exact (ih (sample_settled _)).after_step h

end Timer

theorem Interrupts.raiseIf_or (s : Interrupts) (i : Interrupt) (first second : Bool) :
    (s.raiseIf i first).raiseIf i second = s.raiseIf i (first || second) := by
  cases first <;> cases second <;> simp [raiseIf, raise, UInt8.or_assoc]

namespace Bus

variable {σ : Type}

theorem repeat_step {α : Type} (f : α → α) (n : Nat) (a : α) :
    Nat.repeat f (n + 1) a = Nat.repeat f n (f a) := by
  induction n with
  | zero => rfl
  | succ n ih => exact congrArg f ih

theorem runTimer_eq (b : Bus σ) (n : Nat) :
    b.runTimer n =
      { b with
        timer := (Timer.stepMany n b.timer).1
        interrupts := b.interrupts.raiseIf .timer (Timer.stepMany n b.timer).2 } := by
  induction n generalizing b with
  | zero => rfl
  | succ n ih =>
    have hfirst : b.runTimer (n + 1) = b.stepTimer.runTimer n := repeat_step _ _ _
    rw [hfirst, ih]
    simp only [stepTimer, Interrupts.raiseIf_or, Timer.stepMany]

/-- The timer over any number of cycles, whatever was written to it before. TIMA counts as often as
the divider comes to a multiple of the period; and the request is made when TIMA runs over, be it
once or many times. -/
theorem runTimer_counts {b : Bus σ} (h : b.timer.Reachable) (n : Nat) :
    let t := b.timer
    let k := (t.div.toNat + n) / t.period - t.div.toNat / t.period
    let room := 256 - t.tima.toNat
    ∃ t' : Timer, ∃ raised : Bool,
      b.runTimer n = { b with timer := t', interrupts := b.interrupts.raiseIf .timer raised } ∧
      t'.div.toNat = (t.div.toNat + n) % 65536 ∧ t'.tma = t.tma ∧ t'.tac = t.tac ∧
      t'.lastSignal = t'.signal ∧
      (t.enabled → t'.tima.toNat = (if k < room then t.tima.toNat + k
          else t.tma.toNat + (k - room) % (256 - t.tma.toNat)) ∧
        (raised ↔ room ≤ k)) ∧
      (t.enabled = false → t'.tima = t.tima ∧ raised = false) := by
  intro t k room
  obtain ⟨hdiv, htima, htma, htac, hsettled, hraised⟩ := Timer.stepMany_elapsed h.settled n
  refine ⟨_, _, b.runTimer_eq n, hdiv, htma, htac, hsettled, fun hon => ?_, fun hoff => ?_⟩
  · have hcounts : t.counts n = k := if_pos hon
    rw [hcounts] at htima hraised
    exact ⟨htima, hraised⟩
  · have hcounts : t.counts n = 0 := if_neg (Bool.eq_false_iff.mp hoff)
    have hroom : 0 < room := Nat.sub_pos_of_lt t.tima.toNat_lt
    rw [hcounts, Timer.counted_zero t.tima.toNat_lt] at htima
    rw [hcounts] at hraised
    refine ⟨UInt8.toNat_inj.mp htima, Bool.eq_false_iff.mpr fun hyes => ?_⟩
    exact Nat.not_le_of_gt hroom (hraised.mp hyes)

/-- A console after its start-up whose timer is set to run over every other count. -/
def fastTimer : Bus VolatileRam :=
  ((bare.writeTimer 0xFF07 0x05).writeTimer 0xFF06 0xFE).writeTimer 0xFF05 0xFD

theorem fastTimer_runs_over :
    fastTimer.timer.Reachable ∧ (fastTimer.runTimer 100).timer.div = 0xAC30 ∧
      (fastTimer.runTimer 100).timer.tima = 0xFE ∧
      (fastTimer.runTimer 100).interrupts = fastTimer.interrupts.raise .timer := by
  have hreachable : fastTimer.timer.Reachable :=
    (((Timer.Reachable.start.setDiv bootDivider).write 0xFF07 0x05).write 0xFF06 0xFE).write
      0xFF05 0xFD
  obtain ⟨t, raised, hrun, hdiv, -, -, -, hon, -⟩ := runTimer_counts hreachable 100
  obtain ⟨htima, hraised⟩ := hon (by decide)
  have hyes : raised = true := hraised.mpr (by decide)
  rw [hrun, hyes]
  exact ⟨hreachable, UInt16.toNat_inj.mp hdiv, UInt8.toNat_inj.mp htima, rfl⟩

end Bus
end Handheld
