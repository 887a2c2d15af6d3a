import Mathlib.Logic.Function.Iterate
import Handheld.Proofs.Scheduler.Turns

/-!
The events of a worker against the commands it takes. A pause answers a step or a resume that was
taken while the worker was broken, each of these is answered once at most, and a resume is left
unanswered only for as long as the machine runs, or where the worker ends before it stops.
-/

namespace Handheld

namespace Worker
variable {σ : Type} [ExternalMemory σ]

theorem Reacts.terminated {w w' : Worker σ} {i : Input} {events : List WorkerEvent}
    (h : w.Reacts i w' events) : .terminated ∉ events ∧
      (w.phase = .finished ↔ w'.phase = .finished) ∨
      w.phase ≠ .finished ∧ w'.phase = .finished ∧ events = [.terminated] := by
  cases h with
  | ignore h => simp
  | resume h => simp [h]
  | step h reason => simp
  | request h => cases hp : w.phase <;> simp [hp, Phase.active] at h ⊢
  | finish h hi => simp [h]
  | stop h hi reason => simp [h]
  | proceed h hi => split <;> simp [h]
  | start h => simp [h]
  | lose h => simp [h]

theorem turns_of_finished {w : Worker σ} (h : w.phase = .finished) (inputs : List Input) :
    (w.turns inputs).flatMap Turn.events = [] ∧ (w.after inputs).phase = .finished := by
  induction inputs with
  | nil => exact ⟨rfl, h⟩
  | cons i rest ih =>
    have hreact : w.react i = (w, []) := by simp [react, h]
    simpa [turn, hreact] using ih

theorem terminated_last {w : Worker σ} (h : w.phase ≠ .finished) (inputs : List Input) :
    let events := (w.turns inputs).flatMap Turn.events
    if (w.after inputs).phase = .finished then
      ∃ earlier, events = earlier ++ [.terminated] ∧ .terminated ∉ earlier
    else .terminated ∉ events := by
  induction inputs generalizing w with
  | nil => simp [h]
  | cons i rest ih =>
    have hevents : ((w.turns (i :: rest)).flatMap Turn.events) =
        (w.react i).2 ++ ((w.react i).1.turns rest).flatMap Turn.events := rfl
    rw [hevents, after_cons]
    rcases (w.react_reacts i).terminated with ⟨hnone, hsame⟩ | ⟨-, hend, hlast⟩
    · have hrest := ih (mt hsame.mpr h)
      dsimp only at hrest ⊢
      split at hrest
      case isTrue hend =>
        obtain ⟨earlier, hlater, hbefore⟩ := hrest
        rw [if_pos hend, hlater]
        exact ⟨(w.react i).2 ++ earlier, by simp, by simp [hnone, hbefore]⟩
      case isFalse hend => simp [hend, hnone, hrest]
    · obtain ⟨hempty, hdone⟩ := turns_of_finished hend rest
      rw [if_pos hdone, hempty, hlast]
      exact ⟨[], rfl, by simp⟩

theorem Reacts.machine {w w' : Worker σ} {i : Input} {events : List WorkerEvent}
    (h : w.Reacts i w' events) :
    w'.machine = if w.phase.executes i then w.machine.executed else w.machine := by
  cases h with
  | ignore h =>
    have hstill : w.phase.executes i = false := by
      revert h
      cases w.phase <;> rcases i with (- | - | - | -) | - | - | - | - <;> decide
    simp [hstill]
  | resume h | step h reason | start h | lose h => simp [h, Phase.executes]
  | request h => cases hp : w.phase <;> simp [Phase.executes]
  | finish h hi =>
    have hstill : w.phase.executes i = false := by
      revert hi
      cases w.phase <;> rcases i with (- | - | - | -) | - | - | - | - <;> decide
    simp [hstill]
  | stop h hi reason | proceed h hi => simp [h, hi]

theorem after_machine (w : Worker σ) (inputs : List Input) :
    (w.after inputs).machine =
      Machine.executed^[(w.turns inputs).countP Turn.executes] w.machine := by
  induction inputs generalizing w with
  | nil => rfl
  | cons i rest ih =>
    rw [after_cons, turns_cons, List.countP_cons, turn_executes, ih, (w.react_reacts i).machine]
    cases w.phase.executes i <;> simp

theorem Reacts.answers {w w' : Worker σ} {i : Input} {events : List WorkerEvent}
    (h : w.Reacts i w' events) (executed : Option StepInfo) :
    let t : Turn := { phase := w.phase, input := i, executed, events }
    events.countP WorkerEvent.isPause + (w'.phase.active.toNat + t.cutsShort.toNat) =
      (t.obeys .step).toNat + (t.obeys .resume).toNat + w.phase.active.toNat := by
  cases h with
  | ignore h =>
    have hignored : (w.phase == .broken && i == .command .step) = false ∧
        (w.phase == .broken && i == .command .resume) = false := by
      revert h
      cases w.phase <;> rcases i with (- | - | - | -) | - | - | - | - <;> decide
    simp [Turn.obeys, Turn.cutsShort, hignored]
  | resume h | step h reason | start h | lose h =>
    simp [Turn.obeys, Turn.cutsShort, Phase.active, WorkerEvent.isPause, h]
  | request h =>
    cases hp : w.phase <;>
      simp [Turn.obeys, Turn.cutsShort, Phase.active, WorkerEvent.isPause, hp] at h ⊢
  | finish h hi =>
    have hended : i ≠ .command .step ∧ i ≠ .command .resume := by
      constructor <;> rintro rfl <;> cases hi
    simp [Turn.obeys, Turn.cutsShort, Phase.active, WorkerEvent.isPause, hended]
  | stop h hi reason => simp [Turn.obeys, Turn.cutsShort, Phase.active, WorkerEvent.isPause, h]
  | proceed h hi => split <;> simp [Turn.obeys, Turn.cutsShort, Phase.active, h]

theorem turns_answer (w : Worker σ) (inputs : List Input) :
    let turns := w.turns inputs
    Turn.pauses turns + ((w.after inputs).phase.active.toNat + turns.countP Turn.cutsShort) =
      turns.countP (Turn.obeys .step) + turns.countP (Turn.obeys .resume) +
        w.phase.active.toNat := by
  induction inputs generalizing w with
  | nil => simp
  | cons i rest ih =>
    have hnow : (w.turn i).events.countP WorkerEvent.isPause +
        ((w.react i).1.phase.active.toNat + (w.turn i).cutsShort.toNat) =
        ((w.turn i).obeys .step).toNat + ((w.turn i).obeys .resume).toNat +
          w.phase.active.toNat := (w.react_reacts i).answers _
    have hlater := ih (w.react i).1
    have hone : ∀ b : Bool, (if b then 1 else 0) = b.toNat := by decide
    simp only [turns_cons, after_cons, Turn.pauses_cons, List.countP_cons, hone] at hlater ⊢
    omega

theorem countP_cutsShort (w : Worker σ) (inputs : List Input) :
    (w.turns inputs).countP Turn.cutsShort ≤ 1 ∧
      ((w.after inputs).phase ≠ .finished → (w.turns inputs).countP Turn.cutsShort = 0) := by
  induction inputs generalizing w with
  | nil => simp
  | cons i rest ih =>
    have hevents : (w.turn i).events = (w.react i).2 := rfl
    rw [turns_cons, after_cons, List.countP_cons]
    rcases (w.react_reacts i).terminated with ⟨hnone, -⟩ | ⟨-, hend, -⟩
    · have hnot : (w.turn i).cutsShort = false := by simp [Turn.cutsShort, hevents, hnone]
      simpa [hnot] using ih (w.react i).1
    · obtain ⟨hempty, hdone⟩ := turns_of_finished hend rest
      have hrest : ((w.react i).1.turns rest).countP Turn.cutsShort = 0 := by
        refine List.countP_eq_zero.mpr fun t ht => ?_
        simp [Turn.cutsShort, List.flatMap_eq_nil_iff.mp hempty t ht]
      rw [hrest]
      exact ⟨by split <;> omega, fun hmore => absurd hdone hmore⟩

/-- What is left unanswered: the machine runs, or the worker ended when it ran. -/
theorem unanswered_eq (w : Worker σ) (inputs : List Input) :
    (if (w.after inputs).phase.active || (w.turns inputs).any Turn.cutsShort then 1 else 0) =
      (w.after inputs).phase.active.toNat + (w.turns inputs).countP Turn.cutsShort := by
  obtain ⟨honce, hnone⟩ := w.countP_cutsShort inputs
  have hany : (w.turns inputs).any Turn.cutsShort ↔
      0 < (w.turns inputs).countP Turn.cutsShort := by
    rw [List.any_eq_true, List.countP_pos_iff]
  cases hactive : (w.after inputs).phase.active with
  | true =>
    rw [hnone fun hend => by simp [hend, Phase.active] at hactive]
    rfl
  | false =>
    by_cases hcut : (w.turns inputs).any Turn.cutsShort
    · have := hany.mp hcut
      simp [hcut]
      omega
    · have := mt hany.mpr hcut
      simp [hcut]
      omega

theorem resume_answered {w : Worker σ} {inputs : List Input} {t : Turn} {during : List Turn}
    (hturns : w.turns inputs = t :: during) (ht : t.obeys .resume)
    (hduring : ∀ u ∈ during, u.phase ≠ .broken) :
    Turn.pauses (t :: during) ≤ 1 ∧
      ((w.after inputs).phase = .broken → Turn.pauses (t :: during) = 1) := by
  have hcount := w.turns_answer inputs
  have hcuts := (w.countP_cutsShort inputs).2
  have hphase : t.phase = w.phase := by
    cases inputs with
    | nil => simp at hturns
    | cons i rest => exact (congrArg Turn.phase (List.cons.inj hturns).1).symm
  simp only [Turn.obeys, Bool.and_eq_true, beq_iff_eq] at ht
  obtain ⟨hbroken, hresume⟩ := ht
  have hnone : ∀ c, during.countP (Turn.obeys c) = 0 := by
    refine fun c => List.countP_eq_zero.mpr fun u hu => ?_
    simp [Turn.obeys, hduring u hu]
  have hstep : (t :: during).countP (Turn.obeys .step) = 0 := by
    simp [hnone, Turn.obeys, hresume]
  have hone : (t :: during).countP (Turn.obeys .resume) = 1 := by
    simp [hnone, Turn.obeys, hresume, hbroken]
  rw [hturns] at hcuts
  dsimp only at hcount
  rw [hturns, hstep, hone, ← hphase, hbroken] at hcount
  have hidle : Phase.broken.active.toNat = 0 := rfl
  refine ⟨by omega, fun hagain => ?_⟩
  rw [hagain, hcuts (by simp [hagain])] at hcount
  omega

theorem step_answered (w : Worker σ) (inputs : List Input) :
    ∀ t ∈ w.turns inputs, t.obeys .step → t.executes ∧
      ∃ pc reason, t.events = [.paused pc reason] := by
  induction inputs generalizing w with
  | nil => simp
  | cons i rest ih =>
    intro t ht hstep
    rw [turns_cons, List.mem_cons] at ht
    rcases ht with rfl | ht
    · simp only [Turn.obeys, Bool.and_eq_true, beq_iff_eq] at hstep
      obtain ⟨hbroken, rfl⟩ : w.phase = .broken ∧ i = .command .step := hstep
      refine ⟨by simp [turn_executes, hbroken, Phase.executes], w.machine.executed.pc, ?_⟩
      have hreact : w.react (.command .step) = w.stepOnce := by simp [react, hbroken, whileBroken]
      exact ⟨_, congrArg Prod.snd hreact⟩
    · exact ih _ t ht hstep

theorem executes_of_running (w : Worker σ) (inputs : List Input) :
    ∀ t ∈ w.turns inputs, t.executes → t.phase = .running ∨ t.obeys .step := by
  induction inputs generalizing w with
  | nil => simp
  | cons i rest ih =>
    intro t ht hexecutes
    rw [turns_cons, List.mem_cons] at ht
    rcases ht with rfl | ht
    · rw [turn_executes] at hexecutes
      change w.phase = .running ∨ (w.phase == .broken && i == .command .step) = true
      revert hexecutes
      cases w.phase <;> rcases i with (- | - | - | -) | - | - | - | - <;> decide
    · exact ih _ t ht hexecutes

theorem react_of_quiet {w : Worker σ} (h : w.phase = .broken) {i : Input}
    (hcommand : i.command? = none) (hhost : i ≠ .hungUp) : w.react i = (w, []) := by
  rcases i with c | - | - | - | -
  · cases hcommand
  · exact absurd rfl hhost
  all_goals simp [react, h, whileBroken]

theorem of_quiet {w : Worker σ} (h : w.phase = .broken) {inputs : List Input}
    (hcommands : inputs.filterMap Input.command? = []) (hhost : .hungUp ∉ inputs) :
    w.after inputs = w ∧ Turn.pauses (w.turns inputs) = 0 := by
  induction inputs with
  | nil => exact ⟨rfl, rfl⟩
  | cons i rest ih =>
    rw [List.mem_cons, not_or] at hhost
    have hquiet := List.filterMap_eq_nil_iff.mp hcommands i (by simp)
    rw [List.filterMap_cons_none hquiet] at hcommands
    have hreact := react_of_quiet h hquiet (Ne.symm hhost.1)
    simpa [turn, hreact] using ih hcommands hhost.2

theorem Reacts.goes_on {w w' : Worker σ} {i : Input} {events : List WorkerEvent}
    (h : w.Reacts i w' events) (hw : w.phase ≠ .finished) (hi : ¬i.ends) :
    w'.phase ≠ .finished := by
  cases h with
  | ignore => exact hw
  | finish _ hends => exact absurd hends hi
  | step h => simp [h]
  | proceed => split <;> simp
  | resume | request | stop | start | lose => simp

theorem after_goes_on {w : Worker σ} (h : w.phase ≠ .finished) {inputs : List Input}
    (hends : ∀ i ∈ inputs, ¬i.ends) : (w.after inputs).phase ≠ .finished := by
  induction inputs generalizing w with
  | nil => exact h
  | cons i rest ih =>
    rw [List.forall_mem_cons] at hends
    exact ih ((w.react_reacts i).goes_on h hends.1) hends.2

theorem react_request {w : Worker σ} (h : w.phase ≠ .finished) :
    (w.react (.command .pause)).1.phase = .broken := by
  unfold react
  cases hp : w.phase with
  | broken => exact hp
  | running | waiting => rfl
  | finished => exact absurd hp h

theorem countP_obeys_eq_zero (w : Worker σ) {c : Command} {inputs : List Input}
    (h : c ∉ inputs.filterMap Input.command?) : (w.turns inputs).countP (Turn.obeys c) = 0 := by
  induction inputs generalizing w with
  | nil => rfl
  | cons i rest ih =>
    have hother : i ≠ .command c := by
      rintro rfl
      simp [Input.command?] at h
    have hrest : c ∉ rest.filterMap Input.command? := fun hc => h (by
      rw [List.mem_filterMap] at hc ⊢
      obtain ⟨j, hj, hcommand⟩ := hc
      exact ⟨j, List.mem_cons_of_mem _ hj, hcommand⟩)
    rw [turns_cons, List.countP_cons, ih _ hrest]
    simp [Turn.obeys, turn, hother]

theorem pauses_le_active (w : Worker σ) (inputs : List Input)
    (hstep : .step ∉ inputs.filterMap Input.command?)
    (hresume : .resume ∉ inputs.filterMap Input.command?) :
    Turn.pauses (w.turns inputs) ≤ w.phase.active.toNat ∧
      ((w.after inputs).phase = .broken →
        Turn.pauses (w.turns inputs) = w.phase.active.toNat) := by
  have hcount := w.turns_answer inputs
  have hcuts := (w.countP_cutsShort inputs).2
  have hidle : Phase.broken.active.toNat = 0 := rfl
  dsimp only at hcount
  rw [w.countP_obeys_eq_zero hstep, w.countP_obeys_eq_zero hresume] at hcount
  refine ⟨by omega, fun hend => ?_⟩
  rw [hend, hcuts (by simp [hend])] at hcount
  omega

theorem not_ends_of_quiet {before later : List Input} {i : Input} {c : Command}
    (hquiet : ∀ j ∈ before, j.command? = none) (hi : i.command? = some c)
    (hends : (before ++ i :: later).Pairwise fun i j => i = .hungUp → j.command? = none) :
    ∀ j ∈ before, ¬j.ends := by
  intro j hj hstop
  have hcommand := hquiet j hj
  have hlast := (List.pairwise_append.mp hends).2.2 j hj i (by simp)
  rcases j with c | - | - | - | -
  · cases hcommand
  · simp [hlast rfl] at hi
  all_goals cases hstop

theorem pauses_of_request {w : Worker σ} (h : w.phase ≠ .finished) {inputs : List Input}
    (hcommands : inputs.filterMap Input.command? = [.pause])
    (hends : inputs.Pairwise fun i j => i = .hungUp → j.command? = none) :
    Turn.pauses (w.turns inputs) = w.phase.active.toNat := by
  obtain ⟨before, i, later, rfl, hquiet, hi, hlater⟩ := List.filterMap_eq_cons_iff.mp hcommands
  obtain rfl : i = .command .pause := by cases i <;> simp_all [Input.command?]
  have hnone : before.filterMap Input.command? = [] := List.filterMap_eq_nil_iff.mpr hquiet
  let now := before ++ [Input.command .pause]
  have hbroken : (w.after now).phase = .broken := by
    rw [after_append]
    exact react_request (after_goes_on h (not_ends_of_quiet hquiet hi hends))
  have hrequest : now.filterMap Input.command? = [.pause] := by simp [now, hnone, Input.command?]
  have hnow := (w.pauses_le_active now (by simp [hrequest]) (by simp [hrequest])).2 hbroken
  have hthen := ((w.after now).pauses_le_active later (by simp [hlater]) (by simp [hlater])).1
  have hidle : Phase.broken.active.toNat = 0 := rfl
  rw [hbroken, hidle, Nat.le_zero] at hthen
  rw [List.append_cons, turns_append, Turn.pauses_append, hnow, hthen, Nat.add_zero]

theorem pauses_of_resume {w : Worker σ} (h : w.phase = .broken) {inputs : List Input}
    (hcommands : inputs.filterMap Input.command? = [.resume, .pause])
    (hends : inputs.Pairwise fun i j => i = .hungUp → j.command? = none) :
    Turn.pauses (w.turns inputs) = 1 := by
  obtain ⟨before, i, later, rfl, hquiet, hi, hlater⟩ := List.filterMap_eq_cons_iff.mp hcommands
  obtain rfl : i = .command .resume := by cases i <;> simp_all [Input.command?]
  have hhost : .hungUp ∉ before := fun hmem => not_ends_of_quiet hquiet hi hends _ hmem rfl
  obtain ⟨hbefore, hsilent⟩ := of_quiet h (List.filterMap_eq_nil_iff.mpr hquiet) hhost
  have hreact : w.react (.command .resume) = ({ w with phase := .running }, []) := by
    simp [react, h, whileBroken]
  have hrest := pauses_of_request (w := { w with phase := .running }) (by simp) hlater
    (List.pairwise_cons.mp (List.pairwise_append.mp hends).2.1).2
  rw [turns_append, Turn.pauses_append, hsilent, hbefore]
  simpa [turn, hreact, Phase.active] using hrest

end Worker

namespace Session
variable {σ : Type} [ExternalMemory σ]

/-- Whatever a host sends to a worker and its pacing source signals, and whenever, the worker reads
the commands in order; it emits one event that it has ended, as the last, just if it has; its
machine executes an instruction on turns of a running worker, and once for each step taken while it
is broken, which is answered by one pause; and a resume taken while it is broken is answered by one
pause before it is broken again, so that the pauses are as many as these steps and resumes, less one
while it runs or if it ended when it ran. A resume and a request to pause, sent to a broken worker
with no other command, bring one pause by the time that both are read. -/
theorem pauses_answer_commands (machine : Machine σ) (pacing : Pacing)
    (happenings : List Happening) :
    let s := ((start machine pacing).run happenings).1
    let turns := ((start machine pacing).run happenings).2
    let events := turns.flatMap Turn.events
    (turns.filterMap Turn.command? ++ s.inbox = happenings.filterMap Happening.command?) ∧
    (if s.worker.phase = .finished then
      ∃ earlier, events = earlier ++ [.terminated] ∧ .terminated ∉ earlier
    else .terminated ∉ events) ∧
    s.worker.machine = Machine.executed^[turns.countP Turn.executes] machine ∧
    (∀ t ∈ turns, t.executes → t.phase = .running ∨ t.obeys .step) ∧
    (∀ t ∈ turns, t.obeys .step → t.executes ∧ ∃ pc reason, t.events = [.paused pc reason]) ∧
    (∀ before t during, turns = before ++ t :: during → t.obeys .resume →
      (∀ u ∈ during, u.phase ≠ .broken) →
      Turn.pauses (t :: during) ≤ 1 ∧
        (s.worker.phase = .broken → Turn.pauses (t :: during) = 1)) ∧
    Turn.pauses turns + (if s.worker.phase.active || turns.any Turn.cutsShort then 1 else 0) =
      turns.countP (Turn.obeys .step) + turns.countP (Turn.obeys .resume) ∧
    ∀ later, s.worker.phase = .broken → s.inbox = [] →
      later.filterMap Happening.command? = [.resume, .pause] →
      (s.run later).1.inbox = [] → Turn.pauses (s.run later).2 = 1 := by
  intro s turns events
  let w := (start machine pacing).worker
  let inputs := turns.map Turn.input
  have hbroken : w.phase ≠ .finished := by simp [w, start, Scheduler.spawn]
  obtain ⟨hturns, hworker⟩ := (start machine pacing).run_worker happenings
  change turns = w.turns inputs at hturns
  change s.worker = w.after inputs at hworker
  have hlast := Worker.terminated_last hbroken inputs
  have hmachine := w.after_machine inputs
  have hexecutes := w.executes_of_running inputs
  have hsteps := w.step_answered inputs
  have hcount := w.turns_answer inputs
  have hcuts := w.countP_cutsShort inputs
  rw [← hturns] at hexecutes hsteps
  simp only [← hturns, ← hworker] at hlast hmachine hcount hcuts
  refine ⟨run_commands _ happenings, hlast, hmachine, hexecutes, hsteps, ?_, ?_, ?_⟩
  · intro before t during hsplit hresume hduring
    obtain ⟨head, tail, hinputs, -, htail⟩ := Worker.turns_split (hturns.symm.trans hsplit)
    have hafter : s.worker = (w.after head).after tail := by
      rw [hworker, hinputs, Worker.after_append]
    rw [hafter]
    exact Worker.resume_answered htail hresume hduring
  · have hopen := w.unanswered_eq inputs
    rw [← hturns, ← hworker] at hopen
    rw [hopen]
    exact hcount
  · intro later hstill hinbox hsent hread
    obtain ⟨hlater, -⟩ := s.run_worker later
    have hcommands := s.run_commands later
    rw [hread, hinbox, hsent, List.append_nil, List.nil_append] at hcommands
    have hinputs : ((s.run later).2.map Turn.input).filterMap Input.command? =
        [.resume, .pause] := by
      rw [List.filterMap_map]
      exact hcommands
    rw [hlater]
    exact Worker.pauses_of_resume hstill hinputs (s.run_hungUp later)

end Session
end Handheld
