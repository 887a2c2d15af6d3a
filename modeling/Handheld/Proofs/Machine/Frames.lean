import Mathlib
import Handheld.Proofs.Machine.Reachable

/-!
The length of a frame. Its budget is in processor cycles, and it is the one of the speed at which
the last step is taken; so a frame in which the speed changes is shorter or longer than its time.
-/

namespace Handheld

@[simp] theorem Speed.divisor_normal : Speed.normal.divisor = 1 := rfl

@[simp] theorem Speed.divisor_double : Speed.double.divisor = 2 := rfl

@[simp] theorem Speed.frameBudget_normal : Speed.normal.frameBudget = 70224 := rfl

@[simp] theorem Speed.frameBudget_double : Speed.double.frameBudget = 140448 := rfl

namespace Machine

variable {σ : Type} [ExternalMemory σ]

def unitsAt (speed : Speed) (steps : List (Transition σ)) : Nat :=
  ((steps.filter (·.before.bus.speed = speed)).map Transition.units).sum

omit [ExternalMemory σ] in
@[simp] theorem unitsAt_nil (speed : Speed) : unitsAt speed ([] : List (Transition σ)) = 0 := rfl

omit [ExternalMemory σ] in
@[simp] theorem unitsAt_cons (speed : Speed) (t : Transition σ) (steps : List (Transition σ)) :
    unitsAt speed (t :: steps) =
      (if t.before.bus.speed = speed then t.units else 0) + unitsAt speed steps := by
  by_cases h : t.before.bus.speed = speed <;> simp [unitsAt, h]

omit [ExternalMemory σ] in
@[simp] theorem unitsAt_append (speed : Speed) (steps more : List (Transition σ)) :
    unitsAt speed (steps ++ more) = unitsAt speed steps + unitsAt speed more := by
  simp [unitsAt]

omit [ExternalMemory σ] in
theorem unitsAt_eq_zero {speed : Speed} {steps : List (Transition σ)}
    (h : ∀ t ∈ steps, t.before.bus.speed ≠ speed) : unitsAt speed steps = 0 := by
  induction steps with
  | nil => rfl
  | cons t rest ih => simp_all

omit [ExternalMemory σ] in
theorem sum_units (steps : List (Transition σ)) :
    (steps.map Transition.units).sum = unitsAt .normal steps + unitsAt .double steps := by
  induction steps with
  | nil => rfl
  | cons t rest ih =>
    cases hspeed : t.before.bus.speed <;> simp [hspeed, ih] <;> omega

omit [ExternalMemory σ] in
@[simp] theorem hold_cpu (m : Machine σ) (buttons : Buttons) : (m.hold buttons).cpu = m.cpu := rfl

omit [ExternalMemory σ] in
@[simp] theorem hold_speed (m : Machine σ) (buttons : Buttons) :
    (m.hold buttons).bus.speed = m.bus.speed := rfl

omit [ExternalMemory σ] in
@[simp] theorem hold_frameCycles (m : Machine σ) (buttons : Buttons) :
    (m.hold buttons).frameCycles = m.frameCycles := rfl

theorem runHolding_append (m : Machine σ) (inputs more : List Buttons) :
    m.runHolding (inputs ++ more) = (m.runHolding inputs).runHolding more := by
  induction inputs generalizing m with
  | nil => rfl
  | cons buttons rest ih => simp [runHolding, ih]

theorem transitions_append (m : Machine σ) (inputs more : List Buttons) :
    m.transitions (inputs ++ more) =
      m.transitions inputs ++ (m.runHolding inputs).transitions more := by
  induction inputs generalizing m with
  | nil => rfl
  | cons buttons rest ih => simp [transitions, runHolding, ih]

theorem transitions_last (m : Machine σ) (inputs : List Buttons) (buttons : Buttons) :
    let last := (m.runHolding inputs).hold buttons
    m.transitions (inputs ++ [buttons]) = m.transitions inputs ++ [⟨last, last.step.1, last.step.2⟩] ∧
      m.runHolding (inputs ++ [buttons]) = last.step.1 :=
  ⟨transitions_append .., runHolding_append ..⟩

def EndFrame (steps : List (Transition σ)) : Prop := ∀ t ∈ steps.getLast?, t.info.frameComplete

structure IsFrame (steps : List (Transition σ)) : Prop where
  ne_nil : steps ≠ []
  ends : EndFrame steps
  body : ∀ t ∈ steps.dropLast, t.info.frameComplete = false

theorem step_units (m : Machine σ) :
    4 ≤ m.step.2.cycles ∧ m.step.2.cycles ≤ 24 ∧
      Transition.units ⟨m, m.step.1, m.step.2⟩ * m.bus.speed.divisor = m.step.2.cycles := by
  have hmem := m.step_cycles.1
  have hfew : ∀ n ∈ Core.stepCycles, 4 ≤ n ∧ n ≤ 24 := by decide
  exact ⟨(hfew _ hmem).1, (hfew _ hmem).2, Core.divisor_dvd hmem _⟩

theorem sum_cycles (m : Machine σ) (inputs : List Buttons) :
    let steps := m.transitions inputs
    (steps.map (·.info.cycles)).sum = unitsAt .normal steps + 2 * unitsAt .double steps := by
  induction inputs generalizing m with
  | nil => rfl
  | cons buttons rest ih =>
    obtain ⟨-, -, hunits⟩ := (m.hold buttons).step_units
    have hrest := ih (m.hold buttons).step.1
    cases hspeed : m.bus.speed <;> simp [transitions, hspeed] at hunits hrest ⊢ <;> omega

theorem step_fills (m : Machine σ) :
    (m.step.2.frameComplete = true ∧
      m.step.1.frameCycles + m.bus.speed.frameBudget = m.frameCycles + m.step.2.cycles) ∨
    (m.step.2.frameComplete = false ∧ m.step.1.frameCycles = m.frameCycles + m.step.2.cycles ∧
      m.step.1.frameCycles < m.bus.speed.frameBudget) := by
  rcases m.step_cases with ⟨hfull, hstep⟩ | ⟨hmore, hstep⟩
  · rw [hstep]
    exact .inl ⟨rfl, Nat.sub_add_cancel hfull⟩
  · rw [hstep]
    exact .inr ⟨rfl, rfl, hmore⟩

theorem step_frameCycles_lt {m : Machine σ} (h : m.frameCycles < 140448) :
    m.step.1.frameCycles < 140448 ∧ (m.step.2.frameComplete → m.step.1.frameCycles < 70248) := by
  obtain ⟨-, hfew, -⟩ := m.step_units
  have hbudget : 70224 ≤ m.bus.speed.frameBudget ∧ m.bus.speed.frameBudget ≤ 140448 := by
    cases m.bus.speed <;> simp
  rcases m.step_fills with ⟨-, hrest⟩ | ⟨hcomplete, -, hlt⟩
  · exact ⟨by omega, fun _ => by omega⟩
  · exact ⟨by omega, fun h => by simp [hcomplete] at h⟩

theorem runHolding_frameCycles_lt {m : Machine σ} (h : m.frameCycles < 140448)
    (inputs : List Buttons) : (m.runHolding inputs).frameCycles < 140448 := by
  induction inputs generalizing m with
  | nil => exact h
  | cons buttons rest ih => exact ih (step_frameCycles_lt (m := m.hold buttons) h).1

theorem Started.frameCycles_lt {start : Machine σ} (h : start.Started) {inputs : List Buttons}
    (hends : EndFrame (start.transitions inputs)) :
    (start.runHolding inputs).frameCycles < 70248 := by
  have hstart : start.frameCycles = 0 := by cases h <;> rfl
  rcases List.eq_nil_or_concat inputs with rfl | ⟨init, buttons, rfl⟩
  · simp [runHolding, hstart]
  · obtain ⟨htransitions, hrun⟩ := start.transitions_last init buttons
    have hinit : ((start.runHolding init).hold buttons).frameCycles < 140448 :=
      runHolding_frameCycles_lt (by omega) init
    rw [List.concat_eq_append, htransitions] at hends
    rw [List.concat_eq_append, hrun]
    exact (step_frameCycles_lt hinit).2 (hends _ List.getLast?_concat)

/-- While a frame is not complete all its cycles count, and those at normal speed have to find room
in the budget of that speed. -/
theorem body_fills {m : Machine σ} {inputs : List Buttons}
    (h : ∀ t ∈ m.transitions inputs, t.info.frameComplete = false) :
    let normal := unitsAt .normal (m.transitions inputs)
    (m.runHolding inputs).frameCycles =
      m.frameCycles + normal + 2 * unitsAt .double (m.transitions inputs) ∧
    (normal = 0 ∨ m.frameCycles + normal < 70224) := by
  induction inputs generalizing m with
  | nil => simp [runHolding, transitions]
  | cons buttons rest ih =>
    obtain ⟨hsum, hroom⟩ := ih fun t ht => h t (List.mem_cons_of_mem _ ht)
    have hmore : (m.hold buttons).step.2.frameComplete = false := h _ (List.mem_cons_self ..)
    obtain ⟨-, -, hunits⟩ := (m.hold buttons).step_units
    rcases (m.hold buttons).step_fills with ⟨hcomplete, -⟩ | ⟨-, hrest, hlt⟩
    · simp [hmore] at hcomplete
    · -- the bound on the cycles so far is the one of the speed before this step
      have hspeed : m.bus.speed = .normal ∨ m.bus.speed = .double := by
        cases m.bus.speed <;> simp
      rw [transitions, runHolding, unitsAt_cons, unitsAt_cons]
      rcases hspeed with hspeed | hspeed <;> simp [hspeed] at * <;> omega

theorem IsFrame.last {m : Machine σ} {course : List Buttons} (h : IsFrame (m.transitions course)) :
    ∃ init last, m.transitions course = m.transitions init ++ [⟨last, last.step.1, last.step.2⟩] ∧
      (∀ t ∈ m.transitions init, t.info.frameComplete = false) ∧
      last.frameCycles = (m.runHolding init).frameCycles ∧
      (m.runHolding course).frameCycles + last.bus.speed.frameBudget =
        last.frameCycles + last.step.2.cycles := by
  obtain ⟨hne, hends, hbody⟩ := h
  rcases List.eq_nil_or_concat course with rfl | ⟨init, buttons, hcourse⟩
  · exact absurd rfl hne
  obtain ⟨htransitions, hrun⟩ := m.transitions_last init buttons
  rw [← List.concat_eq_append, ← hcourse] at htransitions hrun
  rw [htransitions] at hends hbody
  rw [List.dropLast_concat] at hbody
  have hcomplete := hends _ List.getLast?_concat
  refine ⟨init, _, htransitions, hbody, rfl, ?_⟩
  rw [hrun]
  rcases ((m.runHolding init).hold buttons).step_fills with ⟨-, hfills⟩ | ⟨hmore, -⟩
  · exact hfills
  · simp [hmore] at hcomplete

/-- The cycles of a frame, with those it begins with, are the budget of the speed it ends at. -/
theorem IsFrame.fills {m : Machine σ} {course : List Buttons}
    (h : IsFrame (m.transitions course)) :
    let steps := m.transitions course
    ∃ t ∈ steps.getLast?, m.frameCycles + (steps.map (·.info.cycles)).sum =
      t.before.bus.speed.frameBudget + (m.runHolding course).frameCycles := by
  obtain ⟨init, last, hsteps, hbody, hbegin, hfull⟩ := h.last
  obtain ⟨hsum, -⟩ := body_fills hbody
  have hcycles := m.sum_cycles init
  intro steps
  rw [show steps = _ from hsteps]
  refine ⟨_, List.getLast?_concat, ?_⟩
  rw [List.map_append, List.sum_append, List.map_singleton, List.sum_singleton]
  dsimp only at hcycles ⊢
  omega

theorem step_locked {m : Machine σ} (h : m.cpu.locked) : m.step.1.cpu.locked ∧
    m.step.1.bus.speed = m.bus.speed ∧ m.step.2.cycles = 4 := by
  have hcore : m.core.step = (⟨{ m.cpu with cycles := m.cpu.cycles + 4 }, m.bus⟩, 4) := by
    have hlocked : m.core.cpu.locked = true := h
    simp [Core.step, Core.stepUncounted, hlocked, Core.idleCycles, cpu, bus]
  have hspeed : ∀ n, (m.bus.performAll (List.replicate n .cycle)).speed = m.bus.speed := by
    refine fun n => Bus.performAll_invariant (I := fun b => b.speed = m.bus.speed) rfl ?_
    intro b e he hb
    obtain ⟨timer, serial, interrupts, vram, oam, hcycle⟩ := b.cycle_bus
    rw [List.eq_of_mem_replicate he, Bus.perform, hcycle]
    exact hb
  rcases m.step_cases with ⟨-, hstep⟩ | ⟨-, hstep⟩
  · rw [hstep, hcore]
    exact ⟨h, hspeed _, rfl⟩
  · rw [hstep, hcore]
    exact ⟨h, hspeed _, rfl⟩

theorem locked_waits {m : Machine σ} (h : m.cpu.locked) (inputs : List Buttons)
    (hroom : m.frameCycles + 4 * inputs.length < m.bus.speed.frameBudget) :
    let last := m.runHolding inputs
    (∀ t ∈ m.transitions inputs,
      t.info.frameComplete = false ∧ t.before.bus.speed = m.bus.speed) ∧
    last.cpu.locked ∧ last.bus.speed = m.bus.speed ∧
    last.frameCycles = m.frameCycles + 4 * inputs.length := by
  induction inputs generalizing m with
  | nil => exact ⟨by simp [transitions], h, rfl, rfl⟩
  | cons buttons rest ih =>
    have hheld : (m.hold buttons).cpu.locked := h
    obtain ⟨hlocked, hspeed, hfour⟩ := step_locked hheld
    rw [List.length_cons] at hroom
    rcases (m.hold buttons).step_fills with ⟨-, hfull⟩ | ⟨hmore, hsum, -⟩
    · rw [hold_speed, hold_frameCycles] at hfull
      omega
    · rw [hold_speed] at hspeed
      rw [hfour, hold_frameCycles] at hsum
      obtain ⟨hrest, hlast, hlastSpeed, hlastSum⟩ := ih hlocked (by rw [hspeed]; omega)
      rw [hspeed] at hrest hlastSpeed
      refine ⟨?_, hlast, hlastSpeed, ?_⟩
      · intro t ht
        rcases List.mem_cons.mp ht with rfl | ht
        · exact ⟨hmore, rfl⟩
        · exact hrest t ht
      · rw [List.length_cons]
        exact hlastSum.trans (by omega)

theorem locked_frame {m : Machine σ} (h : m.cpu.locked) (inputs : List Buttons)
    (hbegun : m.frameCycles < m.bus.speed.frameBudget)
    (hfull : m.frameCycles + 4 * inputs.length = m.bus.speed.frameBudget) :
    IsFrame (m.transitions inputs) ∧
      (∀ t ∈ m.transitions inputs, t.before.bus.speed = m.bus.speed) ∧
      (m.runHolding inputs).frameCycles = 0 := by
  rcases List.eq_nil_or_concat inputs with rfl | ⟨init, buttons, rfl⟩
  · simp only [List.length_nil] at hfull
    omega
  rw [List.concat_eq_append] at hfull ⊢
  rw [List.length_append, List.length_singleton] at hfull
  obtain ⟨hinit, hlocked, hspeed, hsum⟩ := locked_waits h init (by omega)
  obtain ⟨htransitions, hrun⟩ := m.transitions_last init buttons
  have hlast : ((m.runHolding init).hold buttons).cpu.locked := hlocked
  obtain ⟨-, -, hfour⟩ := step_locked hlast
  rw [htransitions, hrun]
  rcases ((m.runHolding init).hold buttons).step_fills with ⟨hcomplete, hfills⟩ | ⟨-, hmore, hlt⟩
  · rw [hold_speed, hspeed, hold_frameCycles] at hfills
    refine ⟨⟨by simp, ?_, ?_⟩, ?_, by omega⟩
    · simpa [EndFrame] using hcomplete
    · rw [List.dropLast_concat]
      exact fun t ht => (hinit t ht).1
    · intro t ht
      rcases List.mem_append.mp ht with ht | ht
      · exact (hinit t ht).2
      · rw [List.mem_singleton.mp ht]
        exact hspeed
  · rw [hold_speed, hspeed] at hlt
    rw [hold_frameCycles] at hmore
    omega

omit [ExternalMemory σ] in
theorem IsFrame.append {steps more : List (Transition σ)} (h : IsFrame more)
    (hsteps : ∀ t ∈ steps, t.info.frameComplete = false) : IsFrame (steps ++ more) := by
  obtain ⟨hne, hends, hbody⟩ := h
  refine ⟨by simp [hne], ?_, ?_⟩
  · rwa [EndFrame, List.getLast?_append_of_ne_nil _ hne]
  · rw [List.dropLast_append_of_ne_nil hne]
    intro t ht
    rcases List.mem_append.mp ht with ht | ht
    · exact hsteps t ht
    · exact hbody t ht

/-- Where a machine is locked before its first frame is complete, it waits for the rest of it. -/
theorem locked_frame_after {start : Machine σ} {first locked : List Buttons}
    (hfirst : ∀ t ∈ start.transitions first, t.info.frameComplete = false)
    (hlocked : (start.runHolding first).cpu.locked)
    (hbegun : (start.runHolding first).frameCycles <
      (start.runHolding first).bus.speed.frameBudget)
    (hfull : (start.runHolding first).frameCycles + 4 * locked.length =
      (start.runHolding first).bus.speed.frameBudget) :
    let steps := start.transitions (first ++ locked)
    let speed := (start.runHolding first).bus.speed
    IsFrame steps ∧ (start.runHolding (first ++ locked)).frameCycles = 0 ∧
      (∀ t ∈ steps.getLast?, t.before.bus.speed = speed) ∧
      ∃ waits, steps = start.transitions first ++ waits ∧
        ∀ t ∈ waits, t.before.bus.speed = speed := by
  obtain ⟨hframe, hspeed, hrest⟩ := locked_frame hlocked locked hbegun hfull
  intro steps speed
  have hsteps : steps = _ := start.transitions_append first locked
  rw [hsteps, start.runHolding_append]
  refine ⟨hframe.append hfirst, hrest, fun t ht => ?_, _, rfl, hspeed⟩
  rw [List.getLast?_append_of_ne_nil _ hframe.ne_nil] at ht
  exact hspeed t (List.mem_of_getLast? ht)

/-- The unit cycles of a frame. One that ends at normal speed is too short by those taken at double
speed, one that ends at double speed is too long by half of those taken at normal speed; only while
the speed stays what it is they are those of a frame, but for a step. -/
theorem frame_units {start : Machine σ} (hstart : start.Started) {before course : List Buttons}
    (hbefore : EndFrame (start.transitions before))
    (hframe : IsFrame ((start.runHolding before).transitions course)) :
    let m := start.runHolding before
    let steps := m.transitions course
    let rest := (m.runHolding course).frameCycles
    let units := (steps.map Transition.units).sum
    (∃ t ∈ steps.getLast?, match t.before.bus.speed with
      | .normal => units + unitsAt .double steps + m.frameCycles = 70224 + rest
      | .double => 2 * units + m.frameCycles = 2 * 70224 + unitsAt .normal steps + rest) ∧
    4 ≤ units ∧ units < 105360 ∧
    (m.frameCycles < 24 → (∃ speed, ∀ t ∈ steps, t.before.bus.speed = speed) →
      70224 - 24 < units ∧ units < 70224 + 24 ∧ rest < 24) := by
  intro m
  have hbegun : m.frameCycles < 70248 := hstart.frameCycles_lt hbefore
  have hfilled : IsFrame (m.transitions course) := hframe
  clear_value m
  intro steps rest units
  obtain ⟨init, last, hsteps, hbody, hbegin, hfull⟩ := hfilled.last
  obtain ⟨hsum, hroom⟩ := body_fills hbody
  have hlt := runHolding_frameCycles_lt (m := m) (by omega) init
  obtain ⟨hleast, hmost, htaken⟩ := last.step_units
  have hrest : rest + last.bus.speed.frameBudget = last.frameCycles + last.step.2.cycles := hfull
  have hunits : units = unitsAt .normal steps + unitsAt .double steps := sum_units steps
  have hsteady : (∃ speed, ∀ t ∈ steps, t.before.bus.speed = speed) →
      ∀ other, last.bus.speed ≠ other → unitsAt other (m.transitions init) = 0 := by
    rintro ⟨speed, hspeed⟩ other hother
    have hlast : last.bus.speed = speed :=
      hspeed ⟨last, last.step.1, last.step.2⟩ (by simp [steps, hsteps])
    refine unitsAt_eq_zero fun t ht => ?_
    rw [hspeed t (by simp [steps, hsteps, ht]), ← hlast]
    exact hother
  have hat : ∀ speed, unitsAt speed steps = unitsAt speed (m.transitions init) +
      if last.bus.speed = speed then Transition.units ⟨last, last.step.1, last.step.2⟩ else 0 :=
    fun speed => by
      rw [show steps = _ from hsteps, unitsAt_append, unitsAt_cons, unitsAt_nil, Nat.add_zero]
  have hslow := hat .normal
  have hfast := hat .double
  have hlast : steps.getLast? = some ⟨last, last.step.1, last.step.2⟩ := by
    rw [show steps = _ from hsteps, List.getLast?_concat]
  clear_value steps rest units
  cases hspeed : last.bus.speed
  case normal =>
    simp only [hspeed, Speed.frameBudget_normal, Speed.divisor_normal, reduceCtorEq, if_true,
      if_false] at hrest htaken hslow hfast hsteady
    refine ⟨⟨_, hlast, ?_⟩, by omega, by omega, fun hfew hone => ?_⟩
    · simp only [hspeed]
      omega
    · have hnone := hsteady hone .double (by simp)
      omega
  case double =>
    simp only [hspeed, Speed.frameBudget_double, Speed.divisor_double, reduceCtorEq, if_true,
      if_false] at hrest htaken hslow hfast hsteady
    refine ⟨⟨_, hlast, ?_⟩, by omega, by omega, fun hfew hone => ?_⟩
    · simp only [hspeed]
      omega
    · have hnone := hsteady hone .normal (by simp)
      omega

/-- Sixty cycles at normal speed, then a switch and an instruction that does not exist. -/
def switching : Machine VolatileRam :=
  programmed [0, 0, 0, 0, 0, 0, 0, 0, 0, 0x3E, 0x01, 0xE0, 0x4D, 0x10, 0x00, 0xD3]

def released (n : Nat) : List Buttons := List.replicate n {}

theorem released_add (n k : Nat) : released (n + k) = released n ++ released k :=
  List.replicate_append_replicate.symm

theorem switching_locks :
    let m := switching.runHolding (released 13)
    let steps := switching.transitions (released 13)
    m.cpu.locked = true ∧ m.bus.speed = .double ∧ m.frameCycles = 64 ∧
      (∀ t ∈ steps, t.info.frameComplete = false) ∧ unitsAt .normal steps = 60 := by
  decide +kernel

theorem switching_started : switching.Started := .create _ _

theorem switching_course :
    let steps := switching.transitions (released 35109)
    IsFrame steps ∧ (switching.runHolding (released 35109)).frameCycles = 0 ∧
      unitsAt .normal steps = 60 ∧ ∀ t ∈ steps.getLast?, t.before.bus.speed = .double := by
  obtain ⟨hlocked, hspeed, hbegun, hfirst, hnormal⟩ := switching_locks
  have hlength : (released 35096).length = 35096 := List.length_replicate
  have hcourse := locked_frame_after hfirst hlocked (by rw [hspeed, hbegun]; decide)
    (by rw [hspeed, hbegun, hlength]; rfl)
  rw [← released_add, hspeed] at hcourse
  obtain ⟨hframe, hrest, hlast, waits, hsteps, hwaits⟩ := hcourse
  refine ⟨hframe, hrest, ?_, hlast⟩
  rw [hsteps, unitsAt_append, hnormal, unitsAt_eq_zero fun t ht => by simp [hwaits t ht]]

/-- The first frame of a program that switches is thirty unit cycles too long. -/
theorem switching_frame_too_long :
    let steps := switching.transitions (released 35109)
    switching.Started ∧ EndFrame (switching.transitions []) ∧ IsFrame steps ∧
      unitsAt .normal steps = 60 ∧ (steps.map Transition.units).sum = 70224 + 30 := by
  obtain ⟨hframe, hrest, hslow, hdouble⟩ := switching_course
  have hnone : EndFrame (switching.transitions []) := by simp [EndFrame, transitions]
  obtain ⟨⟨t, ht, haccount⟩, -⟩ := frame_units switching_started hnone hframe
  have hzero : switching.frameCycles = 0 := rfl
  refine ⟨switching_started, hnone, hframe, hslow, ?_⟩
  rw [runHolding] at ht haccount
  rw [hdouble t ht] at haccount
  simp only [hrest, hzero, hslow] at haccount
  omega

end Machine
end Handheld
