import Handheld.Proofs.Machine.Reachable
import Handheld.Proofs.Scheduler.Turns

/-!
Frames against the signals of a pacing source. Where the machine is to keep to the source, a frame
that it completes while it runs holds it up until one signal is taken, or until it is paused and set
going again; a source that is gone holds up nothing.
-/

namespace Handheld

namespace Turn

def completesFrame (t : Turn) : Bool := t.phase == .running && t.executed.any (·.frameComplete)

def takesSignal (t : Turn) : Bool := t.phase == .waiting && t.input == .tick

end Turn

namespace Worker
variable {σ : Type} [ExternalMemory σ]

theorem turns_eq_cons {w : Worker σ} {inputs : List Input} {t : Turn} {rest : List Turn}
    (h : w.turns inputs = t :: rest) :
    ∃ i later, inputs = i :: later ∧ t = w.turn i ∧ (w.react i).1.turns later = rest := by
  cases inputs with
  | nil => simp at h
  | cons i later =>
    rw [turns_cons, List.cons.injEq] at h
    exact ⟨i, later, rfl, h.1.symm, h.2⟩

structure Paced (w : Worker σ) : Prop where
  paced : w.paced
  limit : w.machine.settings.frameLimit

theorem Paced.react {w : Worker σ} (h : w.Paced) {i : Input} (hi : i ≠ .sourceGone) :
    (w.react i).1.Paced := by
  have hreacts := w.react_reacts i
  have hexecuted : w.machine.executed.settings.frameLimit := by
    rw [Machine.executed_settings]
    exact h.limit
  generalize w.react i = reacted at hreacts
  obtain ⟨w', events⟩ := reacted
  cases hreacts with
  | ignore => exact h
  | resume | request | finish | start => exact ⟨h.paced, h.limit⟩
  | step | stop | proceed => exact ⟨h.paced, hexecuted⟩
  | lose => exact absurd rfl hi

theorem Paced.after {w : Worker σ} (h : w.Paced) {inputs : List Input}
    (hheld : .sourceGone ∉ inputs) : (w.after inputs).Paced := by
  induction inputs generalizing w with
  | nil => exact h
  | cons i rest ih =>
    rw [List.mem_cons, not_or] at hheld
    exact ih (h.react (Ne.symm hheld.1)) hheld.2

theorem turn_completesFrame (w : Worker σ) (i : Input) : (w.turn i).completesFrame =
    (Phase.executes w.phase i && w.phase == .running && w.machine.step.2.frameComplete) := by
  unfold Turn.completesFrame turn
  cases w.phase.executes i <;> cases w.phase <;> simp

theorem running_cases {w : Worker σ} (h : w.phase = .running) {i : Input}
    (hi : Phase.running.executes i) :
    (w.react i).1.phase = (if w.holdsBack then .waiting else .running) ∨
      (w.react i).1.phase = .broken ∧ ∃ pc reason, (w.turn i).events = [.paused pc reason] := by
  have hreact : w.react i = w.runOnce := by
    rcases i with (- | - | - | -) | - | - | - | - <;>
      simp_all [Phase.executes, react, whileRunning]
  have hreacts := runOnce_reacts h hi
  change _ ∨ _ ∧ ∃ pc reason, (w.react i).2 = [.paused pc reason]
  rw [hreact]
  generalize w.runOnce = reacted at hreacts
  obtain ⟨w', events⟩ := reacted
  cases hreacts with
  | stop _ _ reason => exact .inr ⟨rfl, _, reason, rfl⟩
  | proceed => exact .inl rfl
  | ignore hignored =>
    rw [h] at hignored
    rcases i with (- | - | - | -) | - | - | - | - <;>
      simp [Phase.executes, Phase.ignores] at hi hignored
  | finish _ hends =>
    rcases i with (- | - | - | -) | - | - | - | - <;> simp [Phase.executes, Input.ends] at hi hends
  | resume hbroken | step hbroken => simp [h] at hbroken
  | request => cases hi
  | start hwaiting | lose hwaiting => simp [h] at hwaiting

theorem waits_of_frame {w : Worker σ} (h : w.Paced) {i : Input}
    (hframe : (w.turn i).completesFrame) :
    (w.react i).1.phase = .waiting ∨
      (w.react i).1.phase = .broken ∧ ∃ pc reason, (w.turn i).events = [.paused pc reason] := by
  rw [turn_completesFrame] at hframe
  simp only [Bool.and_eq_true, beq_iff_eq] at hframe
  obtain ⟨⟨hexecutes, hrunning⟩, hcomplete⟩ := hframe
  have hholds : w.holdsBack := by simp [holdsBack, hcomplete, h.paced, h.limit]
  simpa [hholds] using running_cases hrunning (i := i) (by rwa [hrunning] at hexecutes)

theorem waiting_cases {w : Worker σ} (h : w.phase = .waiting) {i : Input}
    (hi : i ≠ .sourceGone) :
    i = .tick ∧ (w.react i).1.phase = .running ∨
    i ≠ .tick ∧ ((w.react i).1 = w ∨
      (w.react i).1.phase = .broken ∧ (∃ pc reason, (w.turn i).events = [.paused pc reason]) ∨
      (w.react i).1.phase = .finished) := by
  unfold turn react
  rw [h]
  rcases i with (- | - | - | -) | - | - | - | -
  · exact .inr ⟨by simp, .inl rfl⟩
  · exact .inr ⟨by simp, .inl rfl⟩
  · exact .inr ⟨by simp, .inr (.inl ⟨rfl, _, _, rfl⟩)⟩
  · exact .inr ⟨by simp, .inr (.inr rfl)⟩
  · exact .inr ⟨by simp, .inr (.inr rfl)⟩
  · exact .inl ⟨rfl, rfl⟩
  · exact absurd rfl hi
  · exact .inr ⟨by simp, .inl rfl⟩

theorem no_turn_after_end {w : Worker σ} (h : w.phase = .finished) {inputs : List Input} {t : Turn}
    (ht : t ∈ w.turns inputs) : t.phase = .finished ∧ ¬t.executes := by
  induction inputs with
  | nil => simp at ht
  | cons i rest ih =>
    have hreact : w.react i = (w, []) := by simp [Worker.react, h]
    rw [turns_cons, hreact, List.mem_cons] at ht
    rcases ht with rfl | ht
    · exact ⟨h, by simp [Turn.executes, turn, h, Phase.executes]⟩
    · exact ih ht

theorem broken_cases {w : Worker σ} (h : w.phase = .broken) (i : Input) :
    ((w.turn i).obeys .resume ∨ (w.turn i).obeys .step) ∨
      ¬(w.turn i).executes ∧ ((w.react i).1 = w ∨ (w.react i).1.phase = .finished) := by
  rw [turn_executes]
  unfold Turn.obeys turn react
  rw [h]
  rcases i with (- | - | - | -) | - | - | - | - <;> simp [whileBroken, finish, Phase.executes]

theorem obeys_before_execution {w : Worker σ} (h : w.phase = .broken) {inputs : List Input}
    {between : List Turn} {g : Turn} {later : List Turn}
    (hturns : w.turns inputs = between ++ g :: later) (hg : g.executes) :
    ∃ first t rest, between ++ [g] = first ++ t :: rest ∧ (t.obeys .resume ∨ t.obeys .step) := by
  induction between generalizing inputs with
  | nil =>
    obtain ⟨i, rest, rfl, rfl, -⟩ := turns_eq_cons hturns
    rcases broken_cases h i with hobeys | ⟨hidle, -⟩
    · exact ⟨[], w.turn i, [], rfl, hobeys⟩
    · exact absurd hg hidle
  | cons t between ih =>
    obtain ⟨i, rest, rfl, rfl, hrest⟩ := turns_eq_cons hturns
    rcases broken_cases h i with hobeys | ⟨-, hsame | hend⟩
    · exact ⟨[], w.turn i, between ++ [g], rfl, hobeys⟩
    · rw [hsame] at hrest
      obtain ⟨first, t, tail, hsplit, hobeys⟩ := ih hrest
      exact ⟨w.turn i :: first, t, tail, by rw [List.cons_append, hsplit, List.cons_append], hobeys⟩
    · have hlast : g ∈ (w.react i).1.turns rest := by simp [hrest]
      exact absurd hg (no_turn_after_end hend hlast).2

theorem no_signal_of_idle {w : Worker σ} (h : w.phase ≠ .waiting) {inputs : List Input}
    {between later : List Turn} (hturns : w.turns inputs = between ++ later)
    (hnone : ∀ t ∈ between, ¬t.executes) : between.countP Turn.takesSignal = 0 := by
  induction between generalizing w inputs with
  | nil => rfl
  | cons t between ih =>
    obtain ⟨i, rest, rfl, rfl, hrest⟩ := turns_eq_cons hturns
    have hidle := hnone (w.turn i) (by simp)
    rw [turn_executes] at hidle
    have hnext : (w.react i).1.phase ≠ .waiting := by
      have hreacts := w.react_reacts i
      generalize w.react i = reacted at hreacts
      obtain ⟨w', events⟩ := reacted
      cases hreacts with
      | ignore | step => exact h
      | proceed hrunning hi => exact absurd (by rw [hrunning, hi]) hidle
      | resume | request | finish | stop | start | lose => simp
    have hnot : (w.turn i).takesSignal = false := by simp [Turn.takesSignal, turn, h]
    simpa [hnot] using ih hnext hrest fun t ht => hnone t (by simp [ht])

theorem signal_before_execution {w : Worker σ} (h : w.phase = .waiting) {inputs : List Input}
    (hheld : .sourceGone ∉ inputs) {between : List Turn} {g : Turn} {later : List Turn}
    (hturns : w.turns inputs = between ++ g :: later) (hg : g.executes)
    (hnone : ∀ t ∈ between, ¬t.executes) :
    between.countP Turn.takesSignal = 1 ∨
      ∃ first t rest, between ++ [g] = first ++ t :: rest ∧
        (∃ u ∈ first, ∃ pc reason, .paused pc reason ∈ u.events) ∧
        (t.obeys .resume ∨ t.obeys .step) := by
  induction between generalizing inputs with
  | nil =>
    obtain ⟨i, rest, rfl, rfl, -⟩ := turns_eq_cons hturns
    rw [turn_executes, h] at hg
    cases hg
  | cons t between ih =>
    obtain ⟨i, rest, rfl, rfl, hrest⟩ := turns_eq_cons hturns
    rw [List.mem_cons, not_or] at hheld
    have hlast : g ∈ (w.react i).1.turns rest := by simp [hrest]
    have hnone' : ∀ t ∈ between, ¬t.executes := fun t ht => hnone t (by simp [ht])
    rcases waiting_cases h (Ne.symm hheld.1) with ⟨rfl, hgoes⟩ | ⟨hother, hcases⟩
    · have hnext := no_signal_of_idle (by simp [hgoes]) hrest hnone'
      have htakes : (w.turn .tick).takesSignal := by simp [Turn.takesSignal, turn, h]
      exact .inl (by rw [List.countP_cons_of_pos htakes, hnext])
    have hnot : ¬(w.turn i).takesSignal := by simp [Turn.takesSignal, turn, hother]
    rcases hcases with hsame | ⟨hbroken, pc, reason, hevents⟩ | hend
    · rw [hsame] at hrest
      rcases ih hheld.2 hrest hnone' with hone | ⟨first, t, tail, hsplit, ⟨u, hu, hpause⟩, hobeys⟩
      · exact .inl (by rw [List.countP_cons_of_neg hnot, hone])
      · exact .inr ⟨w.turn i :: first, t, tail, by rw [List.cons_append, hsplit, List.cons_append],
          ⟨u, by simp [hu], hpause⟩, hobeys⟩
    · obtain ⟨first, t, tail, hsplit, hobeys⟩ := obeys_before_execution hbroken hrest hg
      exact .inr ⟨w.turn i :: first, t, tail, by rw [List.cons_append, hsplit, List.cons_append],
        ⟨w.turn i, by simp, pc, reason, by simp [hevents]⟩, hobeys⟩
    · exact absurd hg (no_turn_after_end hend hlast).2

/-- Between an instruction that completes a frame and the next one lies one signal, or a pause and
the command to go on. -/
theorem signal_after_frame {w : Worker σ} (h : w.Paced) {inputs : List Input}
    (hheld : .sourceGone ∉ inputs) {f : Turn} {between : List Turn} {g : Turn} {later : List Turn}
    (hturns : w.turns inputs = f :: (between ++ g :: later)) (hf : f.completesFrame)
    (hg : g.executes) (hnone : ∀ t ∈ between, ¬t.executes) :
    between.countP Turn.takesSignal = 1 ∨
      ∃ first t rest, f :: (between ++ [g]) = first ++ t :: rest ∧
        (∃ u ∈ first, ∃ pc reason, .paused pc reason ∈ u.events) ∧
        (t.obeys .resume ∨ t.obeys .step) := by
  obtain ⟨i, rest, rfl, rfl, hrest⟩ := turns_eq_cons hturns
  rw [List.mem_cons, not_or] at hheld
  rcases waits_of_frame h hf with hwaits | ⟨hbroken, pc, reason, hevents⟩
  · rcases signal_before_execution hwaits hheld.2 hrest hg hnone with
      hone | ⟨first, t, tail, hsplit, ⟨u, hu, hpause⟩, hobeys⟩
    · exact .inl hone
    · exact .inr ⟨w.turn i :: first, t, tail, by rw [hsplit, List.cons_append],
        ⟨u, by simp [hu], hpause⟩, hobeys⟩
  · obtain ⟨first, t, tail, hsplit, hobeys⟩ := obeys_before_execution hbroken hrest hg
    exact .inr ⟨w.turn i :: first, t, tail, by rw [hsplit, List.cons_append],
      ⟨w.turn i, by simp, pc, reason, by simp [hevents]⟩, hobeys⟩

/-- While a worker is not broken, its frames are at most one more than the signals it takes. -/
theorem frames_le_signals {w : Worker σ} (h : w.Paced) {inputs : List Input}
    (hheld : .sourceGone ∉ inputs) {period later : List Turn}
    (hturns : w.turns inputs = period ++ later) (hactive : ∀ t ∈ period, t.phase.active) :
    period.countP Turn.completesFrame + (if w.phase = .waiting then 1 else 0) ≤
      period.countP Turn.takesSignal + 1 := by
  induction period generalizing w inputs with
  | nil => split <;> simp
  | cons t period ih =>
    obtain ⟨i, rest, rfl, rfl, hrest⟩ := turns_eq_cons hturns
    rw [List.mem_cons, not_or] at hheld
    have hnext := h.react (Ne.symm hheld.1)
    have hlater := ih hnext hheld.2 hrest fun t ht => hactive t (by simp [ht])
    have hover : ¬(w.react i).1.phase.active → period = [] := by
      intro hover
      cases period with
      | nil => rfl
      | cons u period =>
        obtain ⟨j, _, -, rfl, -⟩ := turns_eq_cons hrest
        exact absurd (hactive ((w.react i).1.turn j) (by simp)) hover
    have hphase : w.phase.active := hactive (w.turn i) (by simp)
    cases hp : w.phase with
    | broken | finished => simp [hp, Phase.active] at hphase
    | running =>
      have hsilent : ¬(w.turn i).takesSignal := by simp [Turn.takesSignal, turn, hp]
      rw [List.countP_cons_of_neg hsilent, if_neg (by simp)]
      by_cases hframe : (w.turn i).completesFrame
      · rw [List.countP_cons_of_pos hframe]
        rcases waits_of_frame h hframe with hwaits | ⟨hbroken, -⟩
        · rw [if_pos hwaits] at hlater
          omega
        · simp [hover (by simp [hbroken, Phase.active])]
      · rw [List.countP_cons_of_neg hframe]
        omega
    | waiting =>
      have hnone : ¬(w.turn i).completesFrame := by simp [Turn.completesFrame, turn, hp]
      rw [List.countP_cons_of_neg hnone, if_pos rfl]
      rcases waiting_cases hp (Ne.symm hheld.1) with ⟨rfl, -⟩ | ⟨hother, hcases⟩
      · have htakes : (w.turn .tick).takesSignal := by simp [Turn.takesSignal, turn, hp]
        rw [List.countP_cons_of_pos htakes]
        omega
      have hsilent : ¬(w.turn i).takesSignal := by simp [Turn.takesSignal, turn, hother]
      rw [List.countP_cons_of_neg hsilent]
      rcases hcases with hsame | ⟨hbroken, -⟩ | hend
      · rw [hsame, if_pos hp] at hlater
        exact hlater
      · simp [hover (by simp [hbroken, Phase.active])]
      · simp [hover (by simp [hend, Phase.active])]

theorem not_waiting_of_unpaced {w : Worker σ} (h : w.paced = false) (hphase : w.phase ≠ .waiting)
    {inputs : List Input} {t : Turn} (ht : t ∈ w.turns inputs) : t.phase ≠ .waiting := by
  induction inputs generalizing w with
  | nil => simp at ht
  | cons i rest ih =>
    rw [turns_cons, List.mem_cons] at ht
    rcases ht with rfl | ht
    · exact hphase
    have hreacts := w.react_reacts i
    have hholds : w.holdsBack = false := by simp [holdsBack, h]
    refine ih ?_ ?_ ht <;> generalize w.react i = reacted at hreacts ht ⊢ <;>
      obtain ⟨w', events⟩ := reacted <;> cases hreacts <;> simp_all

theorem not_waiting_of_lost {w : Worker σ} {inputs : List Input} {before : List Turn} {t : Turn}
    {later : List Turn} (hturns : w.turns inputs = before ++ t :: later)
    (hphase : t.phase = .waiting) (hinput : t.input = .sourceGone) :
    ∀ u ∈ later, u.phase ≠ .waiting := by
  obtain ⟨head, tail, -, -, htail⟩ := turns_split hturns
  obtain ⟨i, rest, rfl, rfl, hrest⟩ := turns_eq_cons htail
  obtain rfl : i = .sourceGone := hinput
  have hwaiting : (w.after head).phase = .waiting := hphase
  have hreact : (w.after head).react .sourceGone =
      ({ w.after head with phase := .running, paced := false }, []) := by
    simp [react, hwaiting, whileWaiting]
  rw [hreact] at hrest
  intro u hu
  rw [← hrest] at hu
  exact not_waiting_of_unpaced rfl (by simp) hu

end Worker

namespace Pacing

theorem signal_held (p : Pacing) : p.signal.held = p.held := by
  rcases p with - | - | ⟨n, - | -⟩ <;> rfl

theorem poll_of_held {p : Pacing} (h : p.held) : p.poll.1 ≠ .sourceGone ∧ p.poll.2.held := by
  rcases p with - | - | ⟨- | n, - | -⟩ <;> simp_all [held, poll]

end Pacing

namespace Session
variable {σ : Type}

theorem mail_sourceGone (s : Session σ) : s.mail.1 ≠ .sourceGone ∧ s.mail.1 ≠ .tick := by
  unfold mail
  split
  · simp
  · cases s.hungUp <;> simp

theorem mail_of_hasMail {s : Session σ} (h : s.hasMail) : s.mail.1 ≠ .nothing := by
  unfold mail
  split
  · simp
  case h_2 hinbox => simp_all [hasMail]

theorem look_of_held {s : Session σ} (h : s.pacing.held) (prefersSignal : Bool) :
    (s.look prefersSignal).1 ≠ .sourceGone ∧ (s.look prefersSignal).2.pacing.held := by
  rcases s.look_cases prefersSignal with ⟨hlook, -⟩ | ⟨hlook, -⟩ | ⟨hlook, -⟩ <;> rw [hlook]
  · exact ⟨s.mail_sourceGone.1, by rwa [s.mail_pacing]⟩
  · exact ⟨by simp, h⟩
  · exact Pacing.poll_of_held h

/-- What a worker that waits finds when its source is gone: its mail, a signal that was given
before, or that the source is gone. -/
theorem look_of_gone {s : Session σ} {ready : Nat} (h : s.pacing = .external ready false)
    (prefersSignal : Bool) :
    (s.worker.phase = .waiting → (s.look prefersSignal).1 ≠ .nothing) ∧
      ∃ left, (s.look prefersSignal).2.pacing = .external left false ∧
        left + (if s.worker.phase = .waiting ∧ (s.look prefersSignal).1 = .tick then 1 else 0) ≤
          ready := by
  rcases s.look_cases prefersSignal with ⟨hlook, hmail⟩ | ⟨hlook, hend⟩ | ⟨hlook, -⟩ <;> rw [hlook]
  · exact ⟨fun hwaits => mail_of_hasMail (hmail hwaits), ready, s.mail_pacing.trans h,
      by simp [s.mail_sourceGone.2]⟩
  · exact ⟨by simp [hend], ready, h, by simp⟩
  · rw [h]
    cases ready with
    | zero => exact ⟨by simp [Pacing.poll], 0, rfl, by simp [Pacing.poll]⟩
    | succ n => exact ⟨by simp [Pacing.poll], n, rfl, by simp [Pacing.poll]; split <;> omega⟩

variable [ExternalMemory σ]

theorem run_of_held {s : Session σ} (h : s.pacing.held) {happenings : List Happening}
    (hplugged : .unplug ∉ happenings) : .sourceGone ∉ (s.run happenings).2.map Turn.input := by
  induction happenings generalizing s with
  | nil => simp
  | cons a rest ih =>
    rw [List.mem_cons, not_or] at hplugged
    cases a with
    | turn prefersSignal =>
      obtain ⟨hinput, hheld⟩ := look_of_held h prefersSignal
      have hlater := ih (s := (s.perform (.turn prefersSignal)).1) hheld hplugged.2
      rw [run_cons, List.map_append, List.mem_append, not_or]
      exact ⟨by simpa [perform, Worker.turn] using hinput.symm, hlater⟩
    | signal =>
      exact ih (s := (s.perform .signal).1) (by rwa [perform, Pacing.signal_held]) hplugged.2
    | unplug => exact absurd rfl hplugged.1
    | send | hangUp => exact ih (by exact h) hplugged.2

theorem run_of_gone {s : Session σ} {ready : Nat} (h : s.pacing = .external ready false)
    (happenings : List Happening) :
    (∀ t ∈ (s.run happenings).2, t.phase = .waiting → t.input ≠ .nothing) ∧
      (s.run happenings).2.countP Turn.takesSignal ≤ ready := by
  induction happenings generalizing s ready with
  | nil => simp
  | cons a rest ih =>
    cases a with
    | turn prefersSignal =>
      obtain ⟨hfinds, left, hleft, hcount⟩ := look_of_gone h prefersSignal
      obtain ⟨hlater, hfewer⟩ := ih (s := (s.perform (.turn prefersSignal)).1) hleft
      rw [run_cons]
      refine ⟨fun t ht => ?_, ?_⟩
      · rcases List.mem_cons.mp ht with rfl | ht
        · exact hfinds
        · exact hlater t ht
      · have htakes : (s.worker.turn (s.look prefersSignal).1).takesSignal =
            decide (s.worker.phase = .waiting ∧ (s.look prefersSignal).1 = .tick) := by
          simp [Turn.takesSignal, Worker.turn, Bool.beq_eq_decide_eq]
        have hcons := List.countP_cons
          (p := Turn.takesSignal) (a := s.worker.turn (s.look prefersSignal).1)
          (l := ((s.perform (.turn prefersSignal)).1.run rest).2)
        rw [htakes] at hcons
        simp only [decide_eq_true_eq] at hcons
        exact Nat.le_trans (Nat.le_of_eq hcons) (by omega)
    | signal =>
      exact ih (s := (s.perform .signal).1) (by change s.pacing.signal = _; rw [h]; rfl)
    | unplug =>
      exact ih (s := (s.perform .unplug).1) (by change s.pacing.unplug = _; rw [h]; rfl)
    | send | hangUp => exact ih (by exact h)

/-- While a machine is to keep to a pacing source that is not gone, whatever is sent and signalled
and whenever, between an instruction that completes a frame while it runs and the next instruction
either one signal is taken, or a pause is emitted and then the command to go on is taken; so in a
period in which the worker is not broken the frames are at most one more than the signals. Once the
worker has found the source gone it waits for no frame; and from the moment that the source is gone
there is always something for a waiting worker to go on with, and of the signals it takes none but
those given before. -/
theorem frames_await_signals (machine : Machine σ) (hlimit : machine.settings.frameLimit)
    (pacing : Pacing) (happenings : List Happening) :
    let s := ((start machine pacing).run happenings).1
    let turns := ((start machine pacing).run happenings).2
    (pacing.held → .unplug ∉ happenings →
      (∀ before f between g after, turns = before ++ f :: (between ++ g :: after) →
        f.completesFrame → g.executes → (∀ t ∈ between, ¬t.executes) →
        between.countP Turn.takesSignal = 1 ∨
          ∃ first t rest, f :: (between ++ [g]) = first ++ t :: rest ∧
            (∃ u ∈ first, ∃ pc reason, .paused pc reason ∈ u.events) ∧
            (t.obeys .resume ∨ t.obeys .step)) ∧
      (∀ before period after, turns = before ++ (period ++ after) →
        (∀ t ∈ period, t.phase.active) →
        period.countP Turn.completesFrame ≤ period.countP Turn.takesSignal + 1)) ∧
    (∀ before t after, turns = before ++ t :: after → t.phase = .waiting → t.input = .sourceGone →
      ∀ u ∈ after, u.phase ≠ .waiting) ∧
    ∀ ready later, s.pacing = .external ready false →
      (∀ t ∈ (s.run later).2, t.phase = .waiting → t.input ≠ .nothing) ∧
      (s.run later).2.countP Turn.takesSignal ≤ ready := by
  intro s turns
  let w := (start machine pacing).worker
  let inputs := turns.map Turn.input
  obtain ⟨hturns, -⟩ := (start machine pacing).run_worker happenings
  change turns = w.turns inputs at hturns
  refine ⟨fun hheld hplugged => ?_, fun before t after hsplit =>
    Worker.not_waiting_of_lost (hturns.symm.trans hsplit), fun ready later hgone =>
    run_of_gone hgone later⟩
  have hpaced : w.Paced :=
    { paced := by cases pacing with
        | unlimited => cases hheld
        | clock | external => rfl
      limit := hlimit }
  have hsource : .sourceGone ∉ inputs := run_of_held (s := start machine pacing) hheld hplugged
  refine ⟨fun before f between g after hsplit hf hg hnone => ?_,
    fun before period after hsplit hactive => ?_⟩
  all_goals
    obtain ⟨head, tail, hinputs, -, htail⟩ := Worker.turns_split (hturns.symm.trans hsplit)
    rw [hinputs, List.mem_append, not_or] at hsource
    have hkept := hpaced.after hsource.1
  · exact Worker.signal_after_frame hkept hsource.2 htail hf hg hnone
  · have hle := Worker.frames_le_signals hkept hsource.2 htail hactive
    omega

def poised : Machine VolatileRam := { Machine.programmed [0, 0] with frameCycles := 70220 }

theorem poised_awaits_signal :
    let turns := ((start poised .clock).run
      [.send .resume, .turn false, .turn false, .turn false, .turn false]).2
    poised.settings.frameLimit ∧ Pacing.clock.held ∧
      ∃ resumed framed signalled next, turns = [resumed, framed, signalled, next] ∧
        framed.completesFrame ∧ next.executes ∧ [signalled].countP Turn.takesSignal = 1 := by
  intro turns
  have hkinds : turns.map (fun t => (t.completesFrame, t.executes, t.events.isEmpty)) =
      [(false, false, true), (true, true, true), (false, false, true), (false, true, true)] := by
    decide +kernel
  simp only [List.map_eq_cons_iff, List.map_eq_nil_iff, Prod.mk.injEq, List.isEmpty_iff] at hkinds
  obtain ⟨resumed, _, hturns, hresumed, framed, _, rfl, hframed, signalled, _, rfl, hsignalled,
    next, _, rfl, hnext, rfl⟩ := hkinds
  obtain ⟨hawaits, -⟩ := frames_await_signals poised rfl .clock
    [.send .resume, .turn false, .turn false, .turn false, .turn false]
  have hidle : ∀ t ∈ [signalled], ¬t.executes := by simp [hsignalled.2.1]
  refine ⟨rfl, rfl, resumed, framed, signalled, next, hturns, hframed.1, hnext.2.1, ?_⟩
  rcases (hawaits rfl (by simp)).1 [resumed] framed [signalled] next [] hturns hframed.1 hnext.2.1
    hidle with hone | ⟨first, t, rest, hsplit, ⟨u, hu, pc, reason, hpause⟩, -⟩
  · exact hone
  · have hmember : u ∈ [framed, signalled, next] := by
      rw [show [framed, signalled, next] = first ++ t :: rest from hsplit]
      exact List.mem_append_left _ hu
    have hsilent : u.events = [] := by
      simp only [List.mem_cons, List.not_mem_nil, or_false] at hmember
      rcases hmember with rfl | rfl | rfl
      · exact hframed.2.2
      · exact hsignalled.2.2
      · exact hnext.2.2
    simp [hsilent] at hpause

end Session
end Handheld
