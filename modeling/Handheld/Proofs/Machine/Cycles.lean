import Mathlib
import Handheld.Proofs.Machine.Frames

/-!
The accounts of a run: the cycles that the steps give back, those that the processor has executed,
those that the sound unit has caught up with and the frames they fill. No cycle is lost and none is
spent twice.
-/

namespace Handheld

namespace Apu

theorem writeChannel_cycles (a : Apu) (address : UInt16) (v : UInt8) :
    (a.writeChannel address v).cycles = a.cycles := by
  unfold writeChannel
  split <;> rfl

theorem writePower_cycles (a : Apu) (v : UInt8) : (a.writePower v).cycles = a.cycles := by
  unfold writePower
  dsimp only
  split
  · rfl
  split <;> rfl

theorem writeRegister_cycles (a : Apu) (address : UInt16) (v : UInt8) :
    (a.writeRegister address v).cycles = a.cycles := by
  unfold writeRegister
  split
  · exact a.writePower_cycles v
  split
  · rfl
  split
  · exact writeChannel_cycles _ _ _
  · rfl

theorem writeRegisters_cycles (writes : List (UInt16 × UInt8)) (a : Apu) :
    (writes.foldl (fun a (address, v) => a.writeRegister address v) a).cycles = a.cycles := by
  induction writes generalizing a with
  | nil => rfl
  | cons w rest ih => exact (ih _).trans (a.writeRegister_cycles w.1 w.2)

theorem afterBoot_cycles (a : Apu) : a.afterBoot.cycles = a.cycles :=
  (writeRegisters_cycles bootWrites _).trans (a.writePower_cycles 0x80)

theorem sequence_cycles (a : Apu) (step : Nat) : (a.sequence step).cycles = a.cycles := by
  unfold sequence
  dsimp only
  split <;> split <;> split <;> rfl

theorem segment_cycles (a : Apu) (cycles : Nat) : (a.segment cycles).cycles = a.cycles := by
  unfold segment
  dsimp only
  split
  · split
    · exact sequence_cycles _ _
    · rfl
  · rfl

theorem run_cycles (a : Apu) (remaining : Nat) : (a.run remaining).cycles = a.cycles := by
  induction a, remaining using Apu.run.induct with
  | case1 a => rw [run, if_pos rfl]
  | case2 a remaining hsome span ih =>
    rw [run, if_neg hsome]
    exact ih.trans (a.segment_cycles span)

theorem step_cycles (a : Apu) (cycles : Nat) : (a.step cycles).cycles = a.cycles + cycles :=
  run_cycles { a with cycles := a.cycles + cycles } cycles

end Apu

namespace Bus

variable {σ : Type} [ExternalMemory σ]

def Event.sound : Event → Nat
  | .renderSound cycles => cycles
  | _ => 0

theorem write_apu_cycles (b : Bus σ) (address : UInt16) (v : UInt8) :
    (b.write address v).apu.cycles = b.apu.cycles := by
  unfold write
  split
  case h_6 =>
    unfold writeIo
    split
    case h_5 => exact b.apu.writeRegister_cycles address v
    case h_12 =>
      unfold recordFault
      split <;> rfl
    all_goals rfl
  all_goals rfl

theorem perform_apu_cycles (b : Bus σ) (e : Event) :
    (b.perform e).apu.cycles = b.apu.cycles + e.sound := by
  cases e with
  | cycle =>
    obtain ⟨timer, serial, interrupts, vram, oam, h⟩ := b.cycle_bus
    rw [perform, h]
    rfl
  | read address =>
    obtain ⟨joypad, interrupts, fault, h⟩ := b.read_frame address
    rw [perform, h]
    rfl
  | write address v => exact b.write_apu_cycles address v
  | switchSpeed =>
    rw [perform, Bus.switchSpeed]
    split <;> rfl
  | fault f =>
    rw [perform, recordFault]
    split <;> rfl
  | renderSound cycles => exact b.apu.step_cycles cycles
  | acknowledge | sampleButtons | resetDivider | hold => rfl

theorem performAll_apu_cycles {b : Bus σ} {events : List Event} (h : ∀ e ∈ events, e.sound = 0) :
    (b.performAll events).apu.cycles = b.apu.cycles :=
  performAll_invariant (I := fun b' => b'.apu.cycles = b.apu.cycles) rfl fun b' e he hb => by
    rw [perform_apu_cycles, h e he]
    exact hb

end Bus

namespace Machine

variable {σ : Type} [ExternalMemory σ]

theorem Transition.Clocks.apu_cycles {t : Transition σ} (h : t.Clocks) :
    t.after.bus.apu.cycles =
      t.before.bus.apu.cycles + if t.info.frameComplete then t.owed else 0 := by
  obtain ⟨accesses, haccesses, hafter⟩ := h
  have hsilent : ∀ e ∈ accesses ++ List.replicate t.units .cycle, e.sound = 0 := by
    intro e he
    rcases List.mem_append.mp he with he | he
    · have hprocessor := haccesses e he
      cases e with
      | renderSound => cases hprocessor
      | _ => rfl
    · rw [List.eq_of_mem_replicate he]
      rfl
  rw [hafter, Bus.performAll_append]
  split
  · rw [← Bus.performAll_apu_cycles (b := t.before.bus) hsilent]
    exact Bus.perform_apu_cycles _ (.renderSound t.owed)
  · exact Bus.performAll_apu_cycles hsilent

theorem step_sound (m : Machine σ) :
    m.step.1.bus.apu.cycles + m.step.1.soundCycles = m.bus.apu.cycles + m.soundCycles +
      Transition.units ⟨m, m.step.1, m.step.2⟩ := by
  generalize hunits : Transition.units ⟨m, m.step.1, m.step.2⟩ = units
  have hclocks : m.step.1.bus.apu.cycles =
      m.bus.apu.cycles + if m.step.2.frameComplete then m.soundCycles + units else 0 := by
    rw [← hunits]
    exact m.step_clocks.apu_cycles
  rcases m.step_cases with ⟨-, hstep⟩ | ⟨-, hstep⟩
  · have hcomplete : m.step.2.frameComplete = true := by rw [hstep]
    have howed : m.step.1.soundCycles = 0 := by rw [hstep]
    rw [hclocks, if_pos hcomplete, howed]
    omega
  · have hcomplete : ¬ m.step.2.frameComplete = true := by simp [hstep]
    have howed : m.step.1.soundCycles = m.soundCycles + units := by
      rw [← hunits, hstep]
      rfl
    rw [hclocks, if_neg hcomplete, howed]
    omega

/-- The frames at normal speed: those complete hold all the cycles but those of the current one. -/
structure FramesFill (m : Machine σ) : Prop where
  sum : m.frames * Speed.normal.frameBudget + m.frameCycles = m.cpu.cycles
  lt : m.frameCycles < Speed.normal.frameBudget

omit [ExternalMemory σ] in
theorem FramesFill.of_zero {m : Machine σ} (hframes : m.frames = 0) (hrest : m.frameCycles = 0)
    (hcycles : m.cpu.cycles = 0) : m.FramesFill := by
  refine ⟨?_, ?_⟩
  · rw [hframes, hrest, hcycles, Nat.zero_mul]
  · rw [hrest]
    decide

omit [ExternalMemory σ] in
theorem FramesFill.frames_eq {m : Machine σ} (h : m.FramesFill) :
    m.frames = m.cpu.cycles / Speed.normal.frameBudget := by
  rw [← h.sum, Nat.mul_comm, Nat.mul_add_div (by decide), Nat.div_eq_of_lt h.lt, Nat.add_zero]

theorem stepCycles_le {n : Nat} (h : n ∈ Core.stepCycles) : n ≤ 24 := by
  have hall : ∀ n ∈ Core.stepCycles, n ≤ 24 := by decide
  exact hall n h

theorem FramesFill.step {m : Machine σ} (h : m.FramesFill) (hspeed : m.bus.speed = .normal) :
    m.step.1.FramesFill ∧
      m.step.1.frames = m.frames + if m.step.2.frameComplete then 1 else 0 := by
  obtain ⟨hmem, hcycles⟩ := m.step_cycles
  have hfew := stepCycles_le hmem
  have hsum := h.sum
  have hlt := h.lt
  have hbudget : Speed.normal.frameBudget = 70224 := rfl
  rcases m.step_cases with ⟨hfull, hstep⟩ | ⟨hmore, hstep⟩
  · have htaken : m.step.2.cycles = m.core.step.2 := by rw [hstep]
    have hframes : m.step.1.frames = m.frames + 1 := by rw [hstep]
    have hcomplete : m.step.2.frameComplete = true := by rw [hstep]
    have hrest : m.step.1.frameCycles =
        m.frameCycles + m.core.step.2 - Speed.normal.frameBudget := by rw [hstep, hspeed]
    rw [hspeed] at hfull
    refine ⟨⟨?_, by omega⟩, by rw [if_pos hcomplete, hframes]⟩
    rw [hframes, hrest, Nat.add_mul, Nat.one_mul, hcycles]
    omega
  · have htaken : m.step.2.cycles = m.core.step.2 := by rw [hstep]
    have hframes : m.step.1.frames = m.frames := by rw [hstep]
    have hcomplete : ¬ m.step.2.frameComplete = true := by simp [hstep]
    have hrest : m.step.1.frameCycles = m.frameCycles + m.core.step.2 := by rw [hstep]
    rw [hspeed] at hmore
    refine ⟨⟨?_, by omega⟩, by rw [if_neg hcomplete, hframes]; rfl⟩
    rw [hframes, hrest, hcycles]
    omega

omit [ExternalMemory σ] in
theorem applyShades_apu (b : Bus σ) (s : MachineSettings) : (applyShades b s).apu = b.apu := by
  unfold applyShades
  split <;> rfl

omit [ExternalMemory σ] in
theorem Started.accounts {m : Machine σ} (h : m.Started) : m.cpu.cycles = 0 ∧
    m.bus.apu.cycles + m.soundCycles = 0 ∧ m.FramesFill := by
  cases h with
  | create cartridge settings =>
    refine ⟨rfl, ?_, .of_zero rfl rfl rfl⟩
    exact (congrArg Apu.cycles (applyShades_apu _ settings)).trans (Apu.afterBoot_cycles _)
  | reset m =>
    refine ⟨rfl, ?_, .of_zero rfl rfl rfl⟩
    exact (congrArg Apu.cycles (applyShades_apu _ m.settings)).trans (Apu.afterBoot_cycles _)

theorem runHolding_accounts (m : Machine σ) (inputs : List Buttons) :
    let steps := m.transitions inputs
    let last := m.runHolding inputs
    last.cpu.cycles = m.cpu.cycles + (steps.map (·.info.cycles)).sum ∧
      last.bus.apu.cycles + last.soundCycles =
        m.bus.apu.cycles + m.soundCycles + (steps.map Transition.units).sum := by
  induction inputs generalizing m with
  | nil => exact ⟨rfl, rfl⟩
  | cons buttons rest ih =>
    obtain ⟨hcycles, hsound⟩ := ih (m.hold buttons).step.1
    obtain ⟨-, hcount⟩ := (m.hold buttons).step_cycles
    have hstep := (m.hold buttons).step_sound
    refine ⟨?_, ?_⟩
    · refine hcycles.trans ?_
      rw [hcount, transitions, List.map_cons, List.sum_cons, ← Nat.add_assoc]
      rfl
    · refine hsound.trans ?_
      rw [hstep, transitions, List.map_cons, List.sum_cons, ← Nat.add_assoc]
      rfl

theorem transition_clocks {m : Machine σ} {inputs : List Buttons} {t : Transition σ}
    (h : t ∈ m.transitions inputs) : t.info.cycles ∈ Core.stepCycles ∧
      t.units * t.before.bus.speed.divisor = t.info.cycles ∧ t.Clocks := by
  induction inputs generalizing m with
  | nil => cases h
  | cons buttons rest ih =>
    rcases List.mem_cons.mp h with rfl | h
    · have hmem := (m.hold buttons).step_cycles.1
      exact ⟨hmem, Core.divisor_dvd hmem _, step_clocks _⟩
    · exact ih h

theorem runHolding_framesFill {m : Machine σ} {inputs : List Buttons} (h : m.FramesFill)
    (hspeed : ∀ t ∈ m.transitions inputs, t.before.bus.speed = .normal) :
    (m.runHolding inputs).FramesFill ∧ ∀ t ∈ m.transitions inputs,
      (t.info.frameComplete ↔ t.before.cpu.cycles / Speed.normal.frameBudget <
        t.after.cpu.cycles / Speed.normal.frameBudget) := by
  induction inputs generalizing m with
  | nil => exact ⟨h, fun t ht => by cases ht⟩
  | cons buttons rest ih =>
    have hheld : (m.hold buttons).FramesFill := ⟨h.sum, h.lt⟩
    obtain ⟨hnext, hframes⟩ := hheld.step (hspeed _ (List.mem_cons_self ..))
    obtain ⟨hlast, hrest⟩ := ih hnext fun t ht => hspeed t (List.mem_cons_of_mem _ ht)
    refine ⟨hlast, fun t ht => ?_⟩
    rcases List.mem_cons.mp ht with rfl | ht
    · rw [hheld.frames_eq, hnext.frames_eq] at hframes
      dsimp only
      rw [hframes]
      split
      case isTrue hcomplete => simp [hcomplete]
      case isFalse hcomplete => simp [hcomplete]
    · exact hrest t ht

/-- No cycle of a run is lost or spent twice. The processor has executed the cycles that the steps
gave back, each of them whole unit cycles that the units were clocked for; the sound unit has
rendered the unit cycles that it does not owe; and as long as the speed was normal the frames are
those that the cycles fill, each reported by the step that fills it. -/
theorem run_accounts {start : Machine σ} (hstart : start.Started) (inputs : List Buttons) :
    let steps := start.transitions inputs
    let last := start.runHolding inputs
    (∀ t ∈ steps, t.info.cycles ∈ [4, 8, 12, 16, 20, 24] ∧
      t.units * t.before.bus.speed.divisor = t.info.cycles ∧ t.Clocks) ∧
    last.cpu.cycles = (steps.map (·.info.cycles)).sum ∧
    last.bus.apu.cycles + last.soundCycles = (steps.map Transition.units).sum ∧
    ((∀ t ∈ steps, t.before.bus.speed = .normal) →
      last.frames = last.cpu.cycles / Speed.normal.frameBudget ∧
      ∀ t ∈ steps, t.info.frameComplete ↔ t.before.cpu.cycles / Speed.normal.frameBudget <
        t.after.cpu.cycles / Speed.normal.frameBudget) := by
  intro steps last
  obtain ⟨hcycles, hsound, hfill⟩ := hstart.accounts
  obtain ⟨hsum, hunits⟩ := start.runHolding_accounts inputs
  rw [hcycles, Nat.zero_add] at hsum
  rw [hsound, Nat.zero_add] at hunits
  refine ⟨fun t => transition_clocks, hsum, hunits, fun hspeed => ?_⟩
  obtain ⟨hlast, hcomplete⟩ := runHolding_framesFill hfill hspeed
  exact ⟨hlast.frames_eq, hcomplete⟩

def locking : Machine VolatileRam := programmed [0xD3]

theorem locking_course :
    let steps := locking.transitions (released 17556)
    IsFrame steps ∧ (locking.runHolding (released 17556)).frameCycles = 0 ∧
      ∀ t ∈ steps, t.before.bus.speed = .normal := by
  have hfirst : let m := locking.runHolding (released 1)
      let steps := locking.transitions (released 1)
      m.cpu.locked = true ∧ m.bus.speed = .normal ∧ m.frameCycles = 4 ∧
        (∀ t ∈ steps, t.info.frameComplete = false) ∧
        ∀ t ∈ steps, t.before.bus.speed = .normal := by decide +kernel
  obtain ⟨hlocked, hspeed, hbegun, hmore, hnormal⟩ := hfirst
  have hlength : (released 17555).length = 17555 := List.length_replicate
  have hcourse := locked_frame_after hmore hlocked (by rw [hspeed, hbegun]; decide)
    (by rw [hspeed, hbegun, hlength]; rfl)
  rw [← released_add, hspeed] at hcourse
  obtain ⟨hframe, hrest, -, waits, hsteps, hwaits⟩ := hcourse
  refine ⟨hframe, hrest, fun t ht => ?_⟩
  rw [hsteps] at ht
  exact (List.mem_append.mp ht).elim (hnormal t) (hwaits t)

/-- The first frames of two programs, the one at normal speed, the other at both. -/
theorem first_frames_account :
    let steady := locking.runHolding (released 17556)
    let switched := switching.runHolding (released 35109)
    (locking.Started ∧ IsFrame (locking.transitions (released 17556)) ∧
      (∀ t ∈ locking.transitions (released 17556), t.before.bus.speed = .normal) ∧
      steady.cpu.cycles = 70224 ∧ steady.bus.apu.cycles + steady.soundCycles = 70224 ∧
      steady.frames = 1) ∧
    (switching.Started ∧ IsFrame (switching.transitions (released 35109)) ∧
      unitsAt .normal (switching.transitions (released 35109)) = 60 ∧
      switched.cpu.cycles = 140448 ∧ switched.bus.apu.cycles + switched.soundCycles = 70254) := by
  have hstart : locking.Started := .create _ _
  dsimp only
  refine ⟨?_, ?_⟩
  · obtain ⟨hframe, hrest, hnormal⟩ := locking_course
    obtain ⟨t, ht, hfills⟩ := hframe.fills
    obtain ⟨-, hcycles, hsound, hframes⟩ := run_accounts hstart (released 17556)
    have hzero : locking.frameCycles = 0 := rfl
    have hsum := locking.sum_cycles (released 17556)
    have hunits := sum_units (locking.transitions (released 17556))
    have hfast : unitsAt .double (locking.transitions (released 17556)) = 0 :=
      unitsAt_eq_zero fun t ht => by simp [hnormal t ht]
    rw [hnormal t (List.mem_of_getLast? ht), Speed.frameBudget_normal] at hfills
    dsimp only at hsum
    have htaken : (locking.runHolding (released 17556)).cpu.cycles = 70224 := by omega
    refine ⟨hstart, hframe, hnormal, htaken, by omega, ?_⟩
    rw [(hframes hnormal).1, htaken]
    rfl
  · obtain ⟨hframe, hrest, hslow, hdouble⟩ := switching_course
    obtain ⟨t, ht, hfills⟩ := hframe.fills
    obtain ⟨-, hcycles, hsound, -⟩ := run_accounts switching_started (released 35109)
    have hzero : switching.frameCycles = 0 := rfl
    have hsum := switching.sum_cycles (released 35109)
    have hunits := sum_units (switching.transitions (released 35109))
    rw [hdouble t ht, Speed.frameBudget_double] at hfills
    dsimp only at hsum
    exact ⟨switching_started, hframe, hslow, by omega, by omega⟩

end Machine
end Handheld
