import Handheld.Proofs.Machine.Waiting

/-!
Running to the end of a frame. Every step adds four cycles at least, so a frame ends within a number
of steps that depends on nothing; and where the speed stays what it is, and something is left of the
budget, the last step goes beyond it by less than its own length.
-/

namespace Handheld

namespace Bus
variable {σ : Type} [ExternalMemory σ]

theorem write_held (b : Bus σ) (a : UInt16) (v : UInt8) : (b.write a v).held = b.held := by
  unfold write
  split
  case h_6 =>
    unfold writeIo recordFault
    split
    case h_12 => split <;> rfl
    all_goals rfl
  all_goals rfl

theorem perform_held {b : Bus σ} {e : Event} (h : ∀ buttons, e ≠ .hold buttons) :
    (b.perform e).held = b.held := by
  cases e with
  | cycle =>
    obtain ⟨timer, serial, interrupts, vram, oam, hcycle⟩ := b.cycle_bus
    rw [perform, hcycle]
  | read a =>
    obtain ⟨joypad, interrupts, fault, hread⟩ := b.read_frame a
    rw [perform, hread]
  | write a v => exact b.write_held a v
  | switchSpeed =>
    rw [perform, Bus.switchSpeed]
    split <;> rfl
  | fault f =>
    rw [perform, recordFault]
    split <;> rfl
  | hold buttons => exact absurd rfl (h buttons)
  | acknowledge | sampleButtons | resetDivider | renderSound => rfl

end Bus

namespace Machine

variable {σ : Type} [ExternalMemory σ] {m : Machine σ}

theorem step_held (m : Machine σ) : m.step.1.bus.held = m.bus.held := by
  obtain ⟨accesses, haccesses, hafter⟩ := m.step_clocks
  rw [show m.step.1.bus = _ from hafter]
  refine Bus.performAll_invariant (I := fun b => b.held = m.bus.held) rfl fun b e he hb =>
    (Bus.perform_held ?_).trans hb
  rintro buttons rfl
  rcases List.mem_append.mp he with he | he
  · rcases List.mem_append.mp he with he | he
    · cases haccesses _ he
    · cases List.eq_of_mem_replicate he
  · split at he <;> simp at he

theorem Reachable.frameCycles_lt (h : m.Reachable) : m.frameCycles < 140448 := by
  induction h with
  | start h =>
    have hzero : ∀ {m : Machine σ}, m.Started → m.frameCycles = 0 := fun h => by cases h <;> rfl
    simp [hzero h]
  | step _ ih => exact (step_frameCycles_lt ih).1
  | processorStep _ ih => exact ih
  | perform _ _ ih => exact ih

omit [ExternalMemory σ] in
theorem isFrame_cons {t : Transition σ} {rest : List (Transition σ)} : IsFrame (t :: rest) ↔
    t.info.frameComplete = true ∧ rest = [] ∨ t.info.frameComplete = false ∧ IsFrame rest := by
  constructor
  · rintro ⟨-, hends, hbody⟩
    cases rest with
    | nil => exact .inl ⟨hends t rfl, rfl⟩
    | cons t' rest =>
      obtain ⟨hfirst, hbody⟩ := List.forall_mem_cons.mp hbody
      exact .inr ⟨hfirst, by simp, hends, hbody⟩
  · rintro (⟨hcomplete, rfl⟩ | ⟨hmore, hrest⟩)
    · exact ⟨by simp, by simp [EndFrame, hcomplete], by simp⟩
    · have hfirst : ∀ t' ∈ [t], t'.info.frameComplete = false := by simp [hmore]
      exact hrest.append hfirst

theorem isFrame_transitions_cons {buttons : Buttons} {rest : List Buttons} :
    IsFrame (m.transitions (buttons :: rest)) ↔
      (m.hold buttons).step.2.frameComplete = true ∧ rest = [] ∨
      (m.hold buttons).step.2.frameComplete = false ∧
        IsFrame ((m.hold buttons).step.1.transitions rest) := by
  rw [transitions, isFrame_cons]
  cases rest <;> simp [transitions]

theorem exists_frame {inputs : List Buttons} (hlt : m.frameCycles < 140448)
    (henough : 140448 ≤ m.frameCycles + 4 * inputs.length) :
    ∃ n ≤ inputs.length, IsFrame (m.transitions (inputs.take n)) := by
  induction inputs generalizing m with
  | nil =>
    simp only [List.length_nil] at henough
    omega
  | cons buttons rest ih =>
    -- Where the frame goes on, the count has grown by four, and is still below the larger budget,
    -- whatever the speed is now.
    have hnext := (step_frameCycles_lt (m := m.hold buttons) hlt).1
    have hfour := (m.hold buttons).step_units.1
    rw [List.length_cons] at henough ⊢
    rcases (m.hold buttons).step_fills with ⟨hcomplete, -⟩ | ⟨hmore, hsum, -⟩
    · exact ⟨1, by omega, by simpa [isFrame_transitions_cons] using .inl hcomplete⟩
    · rw [hold_frameCycles] at hsum
      obtain ⟨n, hn, hframe⟩ := ih hnext (by omega)
      refine ⟨n + 1, by omega, ?_⟩
      rw [List.take_succ_cons, isFrame_transitions_cons]
      exact .inr ⟨hmore, hframe⟩

theorem runUntilFrame_eq {n fuel : Nat} (hle : n ≤ fuel)
    (hframe : IsFrame (m.transitions (List.replicate n m.bus.held))) :
    m.runUntilFrame fuel = m.runHolding (List.replicate n m.bus.held) := by
  induction n generalizing m fuel with
  | zero => exact absurd rfl hframe.ne_nil
  | succ n ih =>
    obtain ⟨fuel, rfl⟩ : ∃ k, fuel = k + 1 := ⟨fuel - 1, by omega⟩
    rw [List.replicate_succ, isFrame_transitions_cons, hold_held] at hframe
    rw [List.replicate_succ, runHolding, hold_held, runUntilFrame]
    rcases hframe with ⟨hcomplete, hlast⟩ | ⟨hmore, hrest⟩
    · simp [hcomplete, hlast, runHolding]
    · rw [← m.step_held] at hrest ⊢
      simp only [hmore, Bool.false_eq_true, if_false]
      exact ih (by omega) hrest

theorem transition_few {inputs : List Buttons} (h : m.frameCycles < 140448) :
    ∀ t ∈ m.transitions inputs, 4 ≤ t.info.cycles ∧ t.after.frameCycles < 140448 := by
  induction inputs generalizing m with
  | nil => simp [transitions]
  | cons buttons rest ih =>
    have hnext := (step_frameCycles_lt (m := m.hold buttons) h).1
    exact List.forall_mem_cons.mpr ⟨⟨(m.hold buttons).step_units.1, hnext⟩, ih hnext⟩

theorem body_sum {speed : Speed} {inputs : List Buttons} (hroom : m.frameCycles < speed.frameBudget)
    (h : ∀ t ∈ m.transitions inputs,
      t.info.frameComplete = false ∧ t.before.bus.speed = speed) :
    let last := (m.runHolding inputs).frameCycles
    last = m.frameCycles + ((m.transitions inputs).map (·.info.cycles)).sum ∧
      last < speed.frameBudget := by
  induction inputs generalizing m with
  | nil => exact ⟨rfl, hroom⟩
  | cons buttons rest ih =>
    obtain ⟨⟨hmore, hspeed⟩, hrest⟩ := List.forall_mem_cons.mp h
    dsimp only at hmore hspeed
    rcases (m.hold buttons).step_fills with ⟨hcomplete, -⟩ | ⟨-, hsum, hlt⟩
    · simp [hmore] at hcomplete
    · rw [hspeed] at hlt
      obtain ⟨hlast, hless⟩ := ih hlt hrest
      refine ⟨hlast.trans ?_, hless⟩
      rw [hsum, hold_frameCycles, transitions, List.map_cons, List.sum_cons, Nat.add_assoc]

theorem IsFrame.overshoot {course : List Buttons} {speed : Speed}
    (h : IsFrame (m.transitions course))
    (hspeed : ∀ t ∈ m.transitions course, t.before.bus.speed = speed)
    (hroom : m.frameCycles < speed.frameBudget) :
    let cycles := ((m.transitions course).map (·.info.cycles)).sum
    speed.frameBudget - m.frameCycles ≤ cycles ∧
      cycles < speed.frameBudget - m.frameCycles + 24 := by
  obtain ⟨init, last, hsteps, hbody, hbegin, hfull⟩ := h.last
  have hmost := last.step_units.2.1
  rw [hsteps, List.forall_mem_append, List.forall_mem_singleton] at hspeed
  obtain ⟨hsum, hless⟩ := body_sum hroom fun t ht => ⟨hbody t ht, hspeed.1 t ht⟩
  have hlast : last.bus.speed = speed := hspeed.2
  rw [hlast, hbegin] at hfull
  rw [hsteps, List.map_append, List.sum_append, List.map_singleton, List.sum_singleton]
  dsimp only
  omega

theorem IsFrame.length_of_full {n : Nat} {buttons : Buttons} {speed : Speed}
    (h : IsFrame (m.transitions (List.replicate n buttons)))
    (hspeed : ∀ t ∈ m.transitions (List.replicate n buttons), t.before.bus.speed = speed)
    (hfull : speed.frameBudget ≤ m.frameCycles) : n = 1 := by
  cases n with
  | zero => exact absurd rfl h.ne_nil
  | succ n =>
    rw [List.replicate_succ] at h hspeed
    have hfirst : (m.hold buttons).bus.speed = speed := hspeed _ (List.mem_cons_self ..)
    rcases isFrame_transitions_cons.mp h with ⟨-, hrest⟩ | ⟨hmore, -⟩
    · simpa using hrest
    · rcases (m.hold buttons).step_fills with ⟨hcomplete, -⟩ | ⟨-, hsum, hlt⟩
      · simp [hmore] at hcomplete
      · rw [hfirst] at hlt
        rw [hold_frameCycles] at hsum
        omega

/-- A program that goes to double speed and stops, and once a button is held goes back to normal
speed and calls. -/
def returning : Machine VolatileRam :=
  programmed [0x3E, 0x01, 0xE0, 0x4D, 0x10, 0x00, 0x10, 0x00, 0xE0, 0x4D, 0x10, 0x00,
    0xCD, 0x00, 0x01]

theorem returning_pauses :
    let start := returning.runHolding (released 4)
    let read := start.bus.cartridge.read
    start.cpu.stopped = true ∧ start.cpu.halted = false ∧ start.cpu.locked = false ∧
    start.cpu.registers.ime = false ∧ start.bus.held = {} ∧
    start.bus.interrupts.isRequested .joypad = false ∧ start.cpu.registers.imePending = false ∧
    start.cpu.registers.a = 1 ∧ start.cpu.registers.pc = 0x108 ∧ start.bus.model = .color ∧
    start.bus.speed = .double ∧ start.frameCycles = 28 ∧
    Instruction.decode read 0x108 = ⟨0x108, .storeAHigh, 0xE0, false, 0x4D, 0⟩ ∧
    Instruction.decode read 0x10A = ⟨0x10A, .stop, 0x10, false, 0, 0⟩ ∧
    Instruction.decode read 0x10C = ⟨0x10C, .call none, 0xCD, false, 0x00, 0x01⟩ := by
  decide +kernel

theorem returning_calls :
    let m := returning.runHolding (released 17549 ++ [⟨1⟩, ⟨1⟩])
    m.bus.speed = .normal ∧ m.frameCycles = 70224 ∧ m.core.step.2 = 24 := by
  -- Only the first four steps are computed; the others until the button is held only wait.
  have hsplit : released 17549 = released 4 ++ released 17545 := released_add 4 17545
  rw [hsplit, List.append_assoc, runHolding_append]
  obtain ⟨hstopped, hhalted, hlocked, hime, hheld, hrequest, hpending, ha, hpc, hmodel, hspeed, hsum,
    hstore, hstop, hcall⟩ := returning_pauses
  have hplace : ∀ k < 4, Region.ofAddress (0x108 + UInt16.ofNat k) = .cartridge ∧
      Region.ofAddress (0x10A + UInt16.ofNat k) = .cartridge ∧
      Region.ofAddress (0x10C + UInt16.ofNat k) = .cartridge := by decide
  generalize returning.runHolding (released 4) = start at *
  have hpaused : start.Paused := ⟨hstopped, hhalted, hlocked, hime, hheld, hrequest⟩
  have hcolor : start.bus.model.isColor := by rw [hmodel]; rfl
  have hbutton : (⟨1⟩ : Buttons).bits ≠ 0 := by decide
  have hwaits := hpaused.waits (n := 17545) (by rw [hsum, hspeed]; decide)
  obtain ⟨woken, hstep, hruns, hwoken, hsum'⟩ := hwaits.woken hpaused hpending hbutton
  rw [hpc] at hruns
  rw [hspeed] at hwoken
  rw [hsum] at hsum'
  have hfetch := hruns.fetch fun k hk => (hplace k hk).1
  rw [hstore] at hfetch
  obtain ⟨harmed, hprimed, hspeed', hmore⟩ := hruns.arms (hruns.running hpaused hpending) hfetch rfl
    rfl hcolor (by rw [ha]; decide) (by rw [hsum', hwoken]; decide)
  have hruns := harmed.hold ⟨1⟩
  rw [show Instruction.next _ = 0x10A from rfl] at hruns
  have hfetch := hruns.fetch fun k hk => (hplace k hk).2.1
  rw [hstop] at hfetch
  rw [hwoken] at hspeed'
  rw [hsum'] at hmore
  obtain ⟨hruns, hslow, hused⟩ := hruns.switches (hruns.running hpaused hpending) hfetch rfl hcolor
    hprimed (by rw [hold_frameCycles, hold_speed, hmore, hspeed']; decide)
  rw [show Instruction.next _ = 0x10C from rfl] at hruns
  have hfetch := hruns.fetch fun k hk => (hplace k hk).2.2
  rw [hcall] at hfetch
  rw [hold_speed, hspeed'] at hslow
  rw [hold_frameCycles, hmore] at hused
  have hrun : start.runHolding (released 17545 ++ [⟨1⟩, ⟨1⟩]) = (woken.step.1.hold ⟨1⟩).step.1 := by
    rw [runHolding_append, runHolding, hstep]
    rfl
  rw [hrun]
  exact ⟨hslow, hused, Core.step_call_cycles (hruns.running hpaused hpending) hfetch rfl⟩

theorem full_budget_frame (hspeed : m.bus.speed = .normal) (hsum : m.frameCycles = 70224)
    (hcalled : m.core.step.2 = 24) :
    let steps := m.transitions [m.bus.held]
    IsFrame steps ∧ m.runFrame = m.runHolding [m.bus.held] ∧
      (∀ t ∈ steps, t.before.bus.speed = .normal) ∧ (steps.map (·.info.cycles)).sum = 24 := by
  have hcycles : m.step.2.cycles = 24 := by
    rcases m.step_cases with ⟨-, hstep⟩ | ⟨-, hstep⟩ <;> rw [hstep] <;> exact hcalled
  have hcomplete : m.step.2.frameComplete = true := by
    rcases m.step_fills with ⟨hcomplete, -⟩ | ⟨-, hmore, hlt⟩
    · exact hcomplete
    · rw [hspeed, Speed.frameBudget_normal] at hlt
      omega
  have hframe : IsFrame (m.transitions [m.bus.held]) :=
    isFrame_transitions_cons.mpr (.inl ⟨hcomplete, rfl⟩)
  have hone : List.replicate 1 m.bus.held = [m.bus.held] := rfl
  rw [← hone] at hframe ⊢
  refine ⟨hframe, runUntilFrame_eq (by decide) hframe, ?_, ?_⟩
  · simpa [transitions, hold_held] using hspeed
  · simp [transitions, hold_held, hcycles]

theorem Reachable.runHolding (h : m.Reachable) (inputs : List Buttons) :
    (m.runHolding inputs).Reachable := by
  induction inputs generalizing m with
  | nil => exact h
  | cons buttons rest ih => exact ih (h.perform (.hold buttons)).step

/-- From any machine that can be reached, whatever it runs: every step takes four cycles at least
and leaves less than a frame at double speed behind it, so any 35112 steps hold a frame. Running to
the end of the frame takes at most as many, and however many more it were allowed, it would stop
there. At one speed it goes beyond what was left of the budget by less than 24 cycles; if nothing
was left, it is a single step. -/
theorem runFrame_ends (h : m.Reachable) : m.frameCycles < 140448 ∧
    (∀ inputs, ∀ t ∈ m.transitions inputs, 4 ≤ t.info.cycles ∧ t.after.frameCycles < 140448) ∧
    (∀ inputs : List Buttons, inputs.length = 35112 →
      ∃ n ≤ 35112, IsFrame (m.transitions (inputs.take n))) ∧
    ∃ n ≤ 35112,
      let course := List.replicate n m.bus.held
      let steps := m.transitions course
      let cycles := (steps.map (·.info.cycles)).sum
      IsFrame steps ∧ m.runFrame = m.runHolding course ∧
      (∀ fuel ≥ n, m.runUntilFrame fuel = m.runHolding course) ∧
      ∀ speed, (∀ t ∈ steps, t.before.bus.speed = speed) →
        if m.frameCycles < speed.frameBudget then
          speed.frameBudget - m.frameCycles ≤ cycles ∧
            cycles < speed.frameBudget - m.frameCycles + 24
        else n = 1 := by
  have hlt := h.frameCycles_lt
  have hframe (inputs : List Buttons) (hlength : inputs.length = 35112) :
      ∃ n ≤ 35112, IsFrame (m.transitions (inputs.take n)) := by
    rw [← hlength]
    exact exists_frame hlt (by omega)
  refine ⟨hlt, fun inputs => transition_few hlt, hframe, ?_⟩
  obtain ⟨n, hn, hsteps⟩ := hframe (List.replicate 35112 m.bus.held) List.length_replicate
  rw [List.take_replicate, Nat.min_eq_left hn] at hsteps
  refine ⟨n, hn, hsteps, runUntilFrame_eq hn hsteps, fun fuel hle => runUntilFrame_eq hle hsteps,
    fun speed hspeed => ?_⟩
  split
  case isTrue hroom => exact hsteps.overshoot hspeed hroom
  case isFalse hfull => exact hsteps.length_of_full hspeed (Nat.le_of_not_lt hfull)

theorem locked_frame_ends :
    let m := (programmed [0xD3]).step.1
    m.Reachable ∧ m.cpu.locked = true ∧ ∃ n ≤ 35112,
      IsFrame (m.transitions (List.replicate n m.bus.held)) ∧
        m.runFrame = m.runHolding (List.replicate n m.bus.held) := by
  intro m
  have hreachable : m.Reachable := (Reachable.start (.create _ _)).step
  have hlocked : m.cpu.locked = true := by decide +kernel
  clear_value m
  obtain ⟨-, -, -, n, hn, hframe, hrun, -⟩ := runFrame_ends hreachable
  exact ⟨hreachable, hlocked, n, hn, hframe, hrun⟩

theorem full_budget_overshot :
    let m := returning.runHolding (released 17549 ++ [⟨1⟩, ⟨1⟩])
    let steps := m.transitions [m.bus.held]
    m.Reachable ∧ m.frameCycles = Speed.normal.frameBudget ∧ IsFrame steps ∧
      m.runFrame = m.runHolding [m.bus.held] ∧ (∀ t ∈ steps, t.before.bus.speed = .normal) ∧
      ¬(steps.map (·.info.cycles)).sum < Speed.normal.frameBudget - m.frameCycles + 24 := by
  have hstart : returning.Reachable := .start (.create _ _)
  have hreachable := hstart.runHolding (released 17549 ++ [⟨1⟩, ⟨1⟩])
  obtain ⟨hspeed, hsum, hcalled⟩ := returning_calls
  generalize returning.runHolding (released 17549 ++ [⟨1⟩, ⟨1⟩]) = m at *
  obtain ⟨hframe, hrun, hslow, hcycles⟩ := full_budget_frame hspeed hsum hcalled
  refine ⟨hreachable, hsum, hframe, hrun, hslow, ?_⟩
  rw [hcycles, hsum]
  decide

end Machine
end Handheld
