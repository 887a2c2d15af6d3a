import Handheld.Proofs.Machine.Runs
import Handheld.Scheduler.Session

/-!
Turns of a worker: all that can come of one, and what a run of them hands on. A session adds only
when its worker finds what: in it the commands come in the order in which they were sent.
-/

namespace Handheld

def WorkerEvent.isPause : WorkerEvent → Bool
  | .paused .. => true
  | .terminated => false

namespace Phase

/-- The worker runs its machine, or waits for a frame to start in order to go on. -/
def active : Phase → Bool
  | .running | .waiting => true
  | .broken | .finished => false

def ignores : Phase → Input → Bool
  | .broken, .command .resume | .broken, .command .step => false
  | .broken, i => i != .command .terminate && i != .hungUp
  | .running, i => i == .tick || i == .sourceGone
  | .waiting, .command .resume | .waiting, .command .step | .waiting, .nothing => true
  | .waiting, _ => false
  | .finished, _ => true

end Phase

namespace Input

def command? : Input → Option Command
  | .command c => some c
  | _ => none

def ends (i : Input) : Bool := i == .command .terminate || i == .hungUp

end Input

namespace Turn

def command? (t : Turn) : Option Command := t.input.command?

def obeys (c : Command) (t : Turn) : Bool := t.phase == .broken && t.input == .command c

def executes (t : Turn) : Bool := t.executed.isSome

def cutsShort (t : Turn) : Bool := t.phase.active && t.events.contains .terminated

def pauses (turns : List Turn) : Nat := (turns.flatMap Turn.events).countP WorkerEvent.isPause

@[simp] theorem pauses_nil : pauses [] = 0 := rfl

@[simp] theorem pauses_cons (t : Turn) (rest : List Turn) :
    pauses (t :: rest) = t.events.countP WorkerEvent.isPause + pauses rest := by
  simp [pauses]

@[simp] theorem pauses_append (first second : List Turn) :
    pauses (first ++ second) = pauses first + pauses second := by
  simp [pauses]

end Turn

namespace Machine
variable {σ : Type} [ExternalMemory σ]

/-- The machine after an instruction, with its fault taken from it. -/
def executed (m : Machine σ) : Machine σ := m.step.1.takeFault.2

theorem executed_settings (m : Machine σ) : m.executed.settings = m.settings := by
  have hstep : m.step.1.settings = m.settings := by
    rcases m.step_cases with ⟨-, h⟩ | ⟨-, h⟩ <;> rw [h]
  exact hstep

end Machine

namespace Worker
variable {σ : Type} [ExternalMemory σ]

/-- The step that a worker executed completed a frame, and it is to wait for the next one. -/
def holdsBack (w : Worker σ) : Bool :=
  w.machine.step.2.frameComplete && w.machine.settings.frameLimit && w.paced

/-- All that can come of a turn: the worker after it, and its events. -/
inductive Reacts (w : Worker σ) : Input → Worker σ → List WorkerEvent → Prop where
  | ignore {i : Input} (h : w.phase.ignores i) : w.Reacts i w []
  | resume (h : w.phase = .broken) : w.Reacts (.command .resume) { w with phase := .running } []
  | step (h : w.phase = .broken) (reason : PauseReason) :
      w.Reacts (.command .step) { w with machine := w.machine.executed }
        [.paused w.machine.executed.pc reason]
  | request (h : w.phase.active) :
      w.Reacts (.command .pause) { w with phase := .broken } [.paused w.machine.pc .request]
  | finish {i : Input} (h : w.phase ≠ .finished) (hi : i.ends) :
      w.Reacts i { w with phase := .finished } [.terminated]
  | stop {i : Input} (h : w.phase = .running) (hi : Phase.running.executes i)
      (reason : PauseReason) :
      w.Reacts i { w with machine := w.machine.executed, phase := .broken }
        [.paused w.machine.executed.pc reason]
  | proceed {i : Input} (h : w.phase = .running) (hi : Phase.running.executes i) :
      w.Reacts i
        { w with
          machine := w.machine.executed
          phase := if w.holdsBack then .waiting else .running } []
  | start (h : w.phase = .waiting) : w.Reacts .tick { w with phase := .running } []
  | lose (h : w.phase = .waiting) :
      w.Reacts .sourceGone { w with phase := .running, paced := false } []

theorem stepOnce_reacts {w : Worker σ} (h : w.phase = .broken) :
    w.Reacts (.command .step) w.stepOnce.1 w.stepOnce.2 := by
  obtain ⟨machine, phase, paced⟩ := w
  cases h
  exact .step rfl _

theorem runOnce_reacts {w : Worker σ} (h : w.phase = .running) {i : Input}
    (hi : Phase.running.executes i) : w.Reacts i w.runOnce.1 w.runOnce.2 := by
  obtain ⟨machine, phase, paced⟩ := w
  cases h
  unfold runOnce
  dsimp only
  split
  case h_1 reason _ => exact .stop rfl hi reason
  case h_2 =>
    have hsettings : machine.step.1.takeFault.2.settings = machine.settings :=
      machine.executed_settings
    rw [hsettings]
    exact .proceed rfl hi

theorem react_reacts (w : Worker σ) (i : Input) : w.Reacts i (w.react i).1 (w.react i).2 := by
  obtain ⟨machine, phase, paced⟩ := w
  cases phase with
  | broken =>
    rcases i with c | - | - | - | -
    · cases c with
      | resume => exact .resume rfl
      | step => exact stepOnce_reacts rfl
      | pause => exact .ignore rfl
      | terminate => exact .finish (by simp) rfl
    · exact .finish (by simp) rfl
    all_goals exact .ignore rfl
  | running =>
    rcases i with c | - | - | - | -
    · cases c with
      | resume | step => exact runOnce_reacts rfl rfl
      | pause => exact .request rfl
      | terminate => exact .finish (by simp) rfl
    · exact .finish (by simp) rfl
    · exact .ignore rfl
    · exact .ignore rfl
    · exact runOnce_reacts rfl rfl
  | waiting =>
    rcases i with c | - | - | - | -
    · cases c with
      | resume | step => exact .ignore rfl
      | pause => exact .request rfl
      | terminate => exact .finish (by simp) rfl
    · exact .finish (by simp) rfl
    · exact .start rfl
    · exact .lose rfl
    · exact .ignore rfl
  | finished => exact .ignore rfl

theorem react_hungUp (w : Worker σ) : (w.react .hungUp).1.phase = .finished := by
  unfold react
  cases hp : w.phase with
  | broken | running | waiting => rfl
  | finished => exact hp

theorem turn_executes (w : Worker σ) (i : Input) : (w.turn i).executes = w.phase.executes i := by
  unfold Turn.executes turn
  cases w.phase.executes i <;> rfl

def after (w : Worker σ) (inputs : List Input) : Worker σ := (w.reactAll inputs).1

@[simp] theorem after_nil (w : Worker σ) : w.after [] = w := rfl

@[simp] theorem after_cons (w : Worker σ) (i : Input) (rest : List Input) :
    w.after (i :: rest) = (w.react i).1.after rest := rfl

@[simp] theorem turns_nil (w : Worker σ) : w.turns [] = [] := rfl

@[simp] theorem turns_cons (w : Worker σ) (i : Input) (rest : List Input) :
    w.turns (i :: rest) = w.turn i :: (w.react i).1.turns rest := rfl

theorem after_append (w : Worker σ) (first second : List Input) :
    w.after (first ++ second) = (w.after first).after second := by
  induction first generalizing w with
  | nil => rfl
  | cons i rest ih => exact ih _

theorem turns_append (w : Worker σ) (first second : List Input) :
    w.turns (first ++ second) = w.turns first ++ (w.after first).turns second := by
  induction first generalizing w with
  | nil => rfl
  | cons i rest ih => simp [ih]

theorem turns_split {w : Worker σ} {inputs : List Input} {first second : List Turn}
    (h : w.turns inputs = first ++ second) :
    ∃ head tail, inputs = head ++ tail ∧ w.turns head = first ∧
      (w.after head).turns tail = second := by
  induction first generalizing w inputs with
  | nil => exact ⟨[], inputs, rfl, rfl, h⟩
  | cons t first ih =>
    cases inputs with
    | nil => simp at h
    | cons i rest =>
      rw [turns_cons, List.cons_append, List.cons.injEq] at h
      obtain ⟨head, tail, rfl, hhead, htail⟩ := ih h.2
      exact ⟨i :: head, tail, rfl, by rw [turns_cons, hhead, h.1], htail⟩

end Worker

namespace Session
variable {σ : Type}

theorem mail_pacing (s : Session σ) : s.mail.2.pacing = s.pacing := by
  unfold mail
  split <;> rfl

theorem look_cases (s : Session σ) (prefersSignal : Bool) :
    s.look prefersSignal = s.mail ∧ (s.worker.phase = .waiting → s.hasMail) ∨
    s.look prefersSignal = (.nothing, s) ∧ s.worker.phase = .finished ∨
    s.look prefersSignal = (s.pacing.poll.1, { s with pacing := s.pacing.poll.2 }) ∧
      s.worker.phase = .waiting := by
  unfold look
  cases hp : s.worker.phase with
  | broken | running => exact .inl ⟨rfl, by simp⟩
  | finished => exact .inr (.inl ⟨rfl, rfl⟩)
  | waiting =>
    dsimp only
    split
    case isTrue h =>
      rw [Bool.and_eq_true] at h
      exact .inl ⟨rfl, fun _ => h.1⟩
    case isFalse => exact .inr (.inr ⟨rfl, rfl⟩)

variable [ExternalMemory σ]

/-- A scheduler that looks into its channels one after the other takes the turns of a session whose
worker prefers its commands. -/
theorem perform_turn_eq_advance (s : Scheduler σ) (h : s.worker.phase ≠ .finished) :
    ({ toScheduler := s } : Session σ).perform (.turn false) =
        ({ toScheduler := s.advance.1 }, [s.worker.turn s.nextInput.1]) ∧
      (s.worker.turn s.nextInput.1).events = s.advance.2 := by
  obtain ⟨⟨machine, phase, paced⟩, inbox, pacing⟩ := s
  cases phase with
  | finished => exact absurd rfl h
  | broken | running | waiting => cases inbox <;> exact ⟨rfl, rfl⟩

@[simp] theorem run_nil (s : Session σ) : s.run [] = (s, []) := rfl

@[simp] theorem run_cons (s : Session σ) (h : Happening) (rest : List Happening) :
    s.run (h :: rest) =
      (((s.perform h).1.run rest).1, (s.perform h).2 ++ ((s.perform h).1.run rest).2) := rfl

/-- The worker of a session is one that reads the inputs of its turns. -/
theorem run_worker (s : Session σ) (happenings : List Happening) :
    let inputs := (s.run happenings).2.map Turn.input
    (s.run happenings).2 = s.worker.turns inputs ∧
      (s.run happenings).1.worker = s.worker.after inputs := by
  induction happenings generalizing s with
  | nil => exact ⟨rfl, rfl⟩
  | cons h rest ih =>
    obtain ⟨hturns, hworker⟩ := ih (s.perform h).1
    cases h with
    | turn prefersSignal =>
      exact ⟨congrArg (s.worker.turn (s.look prefersSignal).1 :: ·) hturns, hworker⟩
    | send | hangUp | signal | unplug => exact ⟨hturns, hworker⟩

omit [ExternalMemory σ] in
theorem mail_command? (s : Session σ) : s.mail.1.command?.toList ++ s.mail.2.inbox = s.inbox := by
  unfold mail
  cases hinbox : s.inbox with
  | nil => cases s.hungUp <;> simp [Input.command?, hinbox]
  | cons c rest => rfl

theorem poll_command? (p : Pacing) : p.poll.1.command? = none := by
  rcases p with - | - | ⟨- | n, held⟩
  · rfl
  · rfl
  · cases held <;> rfl
  · rfl

omit [ExternalMemory σ] in
theorem look_command? (s : Session σ) (prefersSignal : Bool) :
    (s.look prefersSignal).1.command?.toList ++ (s.look prefersSignal).2.inbox = s.inbox := by
  rcases s.look_cases prefersSignal with ⟨h, -⟩ | ⟨h, -⟩ | ⟨h, -⟩ <;> rw [h]
  · exact s.mail_command?
  · rfl
  · simp [poll_command?]

theorem run_commands (s : Session σ) (happenings : List Happening) :
    (s.run happenings).2.filterMap Turn.command? ++ (s.run happenings).1.inbox =
      s.inbox ++ happenings.filterMap Happening.command? := by
  induction happenings generalizing s with
  | nil => simp
  | cons h rest ih =>
    have hrest := ih (s.perform h).1
    cases h with
    | send c => simpa [perform, Scheduler.send, Happening.command?] using hrest
    | turn prefersSignal =>
      have hlook := s.look_command? prefersSignal
      simp only [run_cons, perform, List.cons_append, List.nil_append, List.filterMap_cons,
        Happening.command?] at hrest ⊢
      rw [← hlook, List.append_assoc, ← hrest]
      cases hread : (s.look prefersSignal).1.command? <;>
        simp [Turn.command?, Worker.turn, hread]
    | hangUp | signal | unplug => exact hrest

theorem run_of_finished {s : Session σ} (h : s.worker.phase = .finished)
    (happenings : List Happening) : ∀ t ∈ (s.run happenings).2, t.input = .nothing := by
  induction happenings generalizing s with
  | nil => simp
  | cons a rest ih =>
    cases a with
    | turn prefersSignal =>
      have hlook : s.look prefersSignal = (.nothing, s) := by simp [look, h]
      have hreact : s.worker.react .nothing = (s.worker, []) := by simp [Worker.react, h]
      have hlater := ih (s := (s.perform (.turn prefersSignal)).1)
        (by simp [perform, hlook, hreact, h])
      rw [run_cons]
      exact List.forall_mem_append.mpr ⟨by simp [perform, hlook, Worker.turn], hlater⟩
    | send | hangUp | signal | unplug => exact ih (by exact h)

theorem run_hungUp (s : Session σ) (happenings : List Happening) :
    ((s.run happenings).2.map Turn.input).Pairwise
      fun i j => i = .hungUp → j.command? = none := by
  induction happenings generalizing s with
  | nil => simp
  | cons a rest ih =>
    have hlater := ih (s.perform a).1
    cases a with
    | turn prefersSignal =>
      refine List.pairwise_cons.mpr ⟨fun j hj hgone => ?_, hlater⟩
      have hend : (s.perform (.turn prefersSignal)).1.worker.phase = .finished := by
        change (s.worker.react (s.look prefersSignal).1).1.phase = .finished
        rw [show (s.look prefersSignal).1 = .hungUp from hgone]
        exact s.worker.react_hungUp
      obtain ⟨t, ht, rfl⟩ := List.mem_map.mp hj
      rw [run_of_finished hend rest t ht]
      rfl
    | send | hangUp | signal | unplug => exact hlater

end Session
end Handheld
