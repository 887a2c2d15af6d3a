import Mathlib
import Handheld.Proofs.Sound.Spans

/-!
The frames that a sink is handed from the time it is connected. No history of steps lets the count
drift from the sample rate, however the cycles are cut into steps and whatever is written to the
registers between them.
-/

namespace Handheld

def SampleBlock.frames (b : SampleBlock) : Nat := b.window.length / 2

namespace ChannelOutput

theorem mem_block? {o : ChannelOutput} {b : SampleBlock} (h : b ∈ o.block?) :
    b = { samples := o.scratch, offset := 0, length := o.scratch.size } ∧ 0 < o.scratch.size := by
  unfold block? at h
  split at h
  case isTrue => cases h
  case isFalse hsome =>
    simp only [Bool.or_eq_true, not_or, Array.isEmpty_iff_size_eq_zero] at hsome
    exact ⟨(Option.some.inj h).symm, Nat.pos_of_ne_zero hsome.2⟩

theorem frames_block? {o : ChannelOutput} (h : o.sink.isSome) :
    o.block?.elim 0 SampleBlock.frames = o.scratch.size / 2 := by
  have hwindow : (o.block?.elim [] SampleBlock.window).length = o.scratch.size := by
    rw [window_block?, if_pos h, Array.length_toList]
  rw [← hwindow]
  cases o.block? with
  | none => rfl
  | some b => rfl

/-- Of an output with a sink that has been connected for some cycles: the frames handed over so far
account for the cycles, up to a fraction of one. -/
structure Accounted (rate cycles frames : Nat) (o : ChannelOutput) : Prop where
  sampleRate : o.sink.map AudioSink.sampleRate = some rate
  scratch : o.scratch = #[]
  account : frames * clockHz + o.remainder = cycles * rate
  fraction : o.remainder < clockHz

variable {o : ChannelOutput} {rate cycles frames : Nat}

theorem accounted_set (o : ChannelOutput) (sink : AudioSink) :
    (o.set (some sink)).Accounted sink.sampleRate 0 0 :=
  ⟨rfl, rfl, by simp [set], by simp [set, clockHz]⟩

theorem Accounted.frames_eq (h : o.Accounted rate cycles frames) :
    frames = cycles * rate / clockHz := by
  rw [← h.account, Nat.mul_comm, Nat.mul_add_div (by decide), Nat.div_eq_of_lt h.fraction,
    Nat.add_zero]

theorem drain_cases (o : ChannelOutput) :
    o.drain.2 = o ∨ ∃ q, o.sink = some (.queue q) ∧
      o.drain.2 = { o with sink := some (.queue q.drain.2) } := by
  unfold drain
  split
  case h_1 q hsink => exact .inr ⟨q, hsink, rfl⟩
  case h_2 => exact .inl rfl

theorem Accounted.drain (h : o.Accounted rate cycles frames) :
    o.drain.2.Accounted rate cycles frames := by
  rcases o.drain_cases with hsame | ⟨q, hsink, hdrain⟩
  · rwa [hsame]
  · rw [hdrain]
    refine ⟨?_, h.scratch, h.account, h.fraction⟩
    have hrate := h.sampleRate
    rw [hsink] at hrate
    exact (congrArg some (q.popMany_sampleRate q.length)).trans hrate

/-- The frames rendered in a stretch of cycles are handed over after it. -/
theorem Accounted.flush {o' : ChannelOutput} {n : Nat} (h : o.Accounted rate cycles frames)
    (hrender : o.Rendered n o') :
    o'.flush.Accounted rate (cycles + n) (frames + o'.block?.elim 0 SampleBlock.frames) := by
  obtain ⟨sink, hsink, hrate⟩ := Option.map_eq_some_iff.mp h.sampleRate
  have hsink' : o'.sink = some sink := hrender.sink.trans hsink
  have hsize : o.scratch.size = 0 := by rw [h.scratch]; rfl
  have haccount := hrender.account sink hsink
  have hpairs := hrender.pairs
  rw [hrate, hsize] at haccount
  rw [hsize] at hpairs
  rw [flush_eq, frames_block? (by rw [hsink']; rfl)]
  refine ⟨?_, rfl, ?_, hrender.fraction h.fraction⟩
  · rw [hsink']
    exact congrArg some ((sink.take_sampleRate _).trans hrate)
  · obtain ⟨k, hk⟩ : ∃ k, o'.scratch.size = 2 * k := ⟨o'.scratch.size / 2, by omega⟩
    have haccount' := h.account
    rw [hk, Nat.mul_assoc] at haccount
    rw [hk, Nat.mul_div_cancel_left k (by decide), Nat.add_mul, Nat.add_mul]
    dsimp only
    omega

end ChannelOutput

namespace Apu

@[simp] theorem writeRegister_output (a : Apu) (address : UInt16) (v : UInt8) (c : Channel) :
    (a.writeRegister address v).output c = a.output c := by
  rw [kept_of_carrying (writeRegister · address v) (writeRegister_carrying · · · address v) a,
    output_carrying]

theorem afterBoot_output (a : Apu) (c : Channel) : a.afterBoot.output c = a.output c := by
  rw [kept_of_carrying afterBoot afterBoot_carrying a, output_carrying]

theorem setOutput_output (a : Apu) (c c' : Channel) (o : ChannelOutput) :
    (a.setOutput c' o).output c = if c' = c then o else a.output c := by
  cases c' <;> cases c <;> rfl

theorem step_output (a : Apu) (n : Nat) (c : Channel) :
    (a.step n).output c = ((a.run n).output c).flush := by
  rw [step_eq, output_carrying]

inductive Event where
  | step (cycles : Nat)
  | write (address : UInt16) (v : UInt8)
  | boot
  | connect (c : Channel) (sink : Option AudioSink)
  | drain (c : Channel)

def Event.Keeps (c : Channel) : Event → Prop
  | connect c' _ => c' ≠ c
  | _ => True

def Event.cycles : Event → Nat
  | step n => n
  | _ => 0

def perform (a : Apu) : Event → Apu
  | .step n => a.step n
  | .write address v => a.writeRegister address v
  | .boot => a.afterBoot
  | .connect c sink => (a.setSink c sink).2
  | .drain c => (a.drain c).2

def performAll (a : Apu) (events : List Event) : Apu := events.foldl perform a

def handedAt (a : Apu) (c : Channel) : Event → Option SampleBlock
  | .step n => a.handed? n c
  | _ => none

def delivered (a : Apu) (c : Channel) : List Event → List SampleBlock
  | [] => []
  | e :: rest => (a.handedAt c e).toList ++ (a.perform e).delivered c rest

def totalCycles (events : List Event) : Nat := (events.map Event.cycles).sum

theorem perform_cases (a : Apu) {c : Channel} {e : Event} (h : e.Keeps c) :
    (∃ n, e = .step n ∧ (a.perform e).output c = ((a.run n).output c).flush) ∨
    (e.cycles = 0 ∧ a.handedAt c e = none ∧
      ((a.perform e).output c = a.output c ∨ (a.perform e).output c = (a.output c).drain.2)) := by
  cases e with
  | step n => exact .inl ⟨n, rfl, a.step_output n c⟩
  | write address v => exact .inr ⟨rfl, rfl, .inl (a.writeRegister_output address v c)⟩
  | boot => exact .inr ⟨rfl, rfl, .inl (a.afterBoot_output c)⟩
  | connect c' sink =>
    exact .inr ⟨rfl, rfl, .inl ((a.setOutput_output c c' _).trans (if_neg h))⟩
  | drain c' =>
    have hdrain := a.setOutput_output c c' (a.output c').drain.2
    by_cases hc : c' = c
    · subst hc
      exact .inr ⟨rfl, rfl, .inr (hdrain.trans (if_pos rfl))⟩
    · exact .inr ⟨rfl, rfl, .inl (hdrain.trans (if_neg hc))⟩

theorem perform_accounted {a : Apu} {c : Channel} {rate cycles frames : Nat}
    (h : (a.output c).Accounted rate cycles frames) {e : Event} (he : e.Keeps c) :
    ((a.perform e).output c).Accounted rate (cycles + e.cycles)
      (frames + (a.handedAt c e).elim 0 SampleBlock.frames) := by
  rcases a.perform_cases he with ⟨n, rfl, houtput⟩ | ⟨hcycles, hnone, houtput | houtput⟩
  · rw [houtput, handedAt, handed?_eq]
    exact h.flush (a.run_rendered n c)
  · rwa [houtput, hcycles, hnone]
  · rw [houtput, hcycles, hnone]
    exact h.drain

theorem performAll_accounted {a : Apu} {c : Channel} {rate cycles frames : Nat}
    (h : (a.output c).Accounted rate cycles frames) {events : List Event}
    (hkeep : ∀ e ∈ events, e.Keeps c) :
    ((a.performAll events).output c).Accounted rate (cycles + totalCycles events)
      (frames + ((a.delivered c events).map SampleBlock.frames).sum) := by
  induction events generalizing a cycles frames with
  | nil => exact h
  | cons e rest ih =>
    have hrest := ih (perform_accounted h (hkeep e (List.mem_cons_self ..)))
      fun e' he' => hkeep e' (List.mem_cons_of_mem _ he')
    have hframes : ((a.delivered c (e :: rest)).map SampleBlock.frames).sum =
        (a.handedAt c e).elim 0 SampleBlock.frames +
          (((a.perform e).delivered c rest).map SampleBlock.frames).sum := by
      cases hhanded : a.handedAt c e <;> simp [delivered, hhanded]
    have hcycles : totalCycles (e :: rest) = e.cycles + totalCycles rest := List.sum_cons
    rwa [hframes, hcycles, ← Nat.add_assoc, ← Nat.add_assoc]

theorem performAll_recorder {a : Apu} {c : Channel} {rate : Nat} {blocks : Array SampleBlock}
    (h : (a.output c).sink = some (.recorder rate blocks)) {events : List Event}
    (hkeep : ∀ e ∈ events, e.Keeps c) :
    ((a.performAll events).output c).sink =
      some (.recorder rate (blocks ++ (a.delivered c events).toArray)) := by
  induction events generalizing a blocks with
  | nil => simpa [performAll, delivered] using h
  | cons e rest ih =>
    have hrest : ∀ e' ∈ rest, e'.Keeps c := fun e' he' => hkeep e' (List.mem_cons_of_mem _ he')
    have hfirst : ((a.perform e).output c).sink =
        some (.recorder rate (blocks ++ (a.handedAt c e).toList.toArray)) := by
      rcases a.perform_cases (hkeep e (List.mem_cons_self ..)) with
        ⟨n, rfl, -⟩ | ⟨-, hnone, houtput | houtput⟩
      · have hsink : ((a.perform (.step n)).output c).sink = _ := a.step_sink n c
        rw [hsink, h, handedAt]
        cases a.handed? n c <;> simp [AudioSink.take, AudioSink.accept]
      · simp [houtput, hnone, h]
      · rcases (a.output c).drain_cases with hsame | ⟨q, hqueue, -⟩
        · simp [houtput, hsame, hnone, h]
        · cases h.symm.trans hqueue
    have hblocks : blocks ++ (a.delivered c (e :: rest)).toArray =
        blocks ++ (a.handedAt c e).toList.toArray ++ ((a.perform e).delivered c rest).toArray := by
      rw [delivered, Array.append_assoc, List.append_toArray (a.handedAt c e).toList]
    rw [hblocks]
    exact ih hfirst hrest

/-- A sink from the time it is connected to a channel, whatever happens to the unit then but another
connection of the channel. The frames handed over are those that fill the cycles at the sample rate,
rounded down. Each step hands over one block at most, a whole number of frames from its first sample
on and never none, and the sum that the count of frames is taken from fits in 64 bits at whatever
stretch of a step. -/
theorem frames_delivered (a : Apu) (c : Channel) (sink : AudioSink) (events : List Event)
    (hkeep : ∀ e ∈ events, e.Keeps c) :
    let start := (a.setSink c (some sink)).2
    ((start.delivered c events).map SampleBlock.frames).sum =
        totalCycles events * sink.sampleRate / clockHz ∧
      (∀ rate blocks, sink = .recorder rate blocks →
        ((start.performAll events).output c).sink =
          some (.recorder rate (blocks ++ (start.delivered c events).toArray))) ∧
      ∀ before n after, events = before ++ .step n :: after →
        let now := start.performAll before
        (∃ taking, (now.output c).sink = some taking ∧ taking.sampleRate = sink.sampleRate ∧
          ((now.step n).output c).sink = some (taking.take (now.handed? n c))) ∧
        (∀ b ∈ now.handed? n c,
          b.offset = 0 ∧ b.length = b.samples.size ∧ b.length % 2 = 0 ∧ 0 < b.length) ∧
        (sink.sampleRate < 2 ^ 32 → n < 2 ^ 32 → ∀ done stretch, done + stretch ≤ n →
          let stepping := { now with cycles := now.cycles + n : Apu }.run done
          (stepping.output c).remainder + stretch * sink.sampleRate < 2 ^ 64) := by
  intro start
  have hoff : start.output c = (a.output c).set (some sink) :=
    (a.setOutput_output c c _).trans (if_pos rfl)
  have hstart : (start.output c).Accounted sink.sampleRate 0 0 :=
    hoff ▸ (a.output c).accounted_set sink
  refine ⟨?_, fun rate blocks hrecorder => ?_, fun before n after hevents => ?_⟩
  · have htotal := (performAll_accounted hstart hkeep).frames_eq
    rwa [Nat.zero_add, Nat.zero_add] at htotal
  · refine performAll_recorder ?_ hkeep
    rw [hoff, ← hrecorder]
    rfl
  intro now
  have hbefore : ∀ e ∈ before, e.Keeps c := fun e he =>
    hkeep e (hevents ▸ List.mem_append_left _ he)
  have hnow := performAll_accounted hstart hbefore
  obtain ⟨taking, htaking, hrate⟩ := Option.map_eq_some_iff.mp hnow.sampleRate
  refine ⟨⟨taking, htaking, hrate, ?_⟩, fun b hb => ?_, fun hrate32 hn done stretch hdone => ?_⟩
  · rw [step_sink, htaking]
    rfl
  · rw [handed?_eq] at hb
    obtain ⟨rfl, hpos⟩ := ChannelOutput.mem_block? hb
    have hpairs := (now.run_rendered n c).pairs
    rw [hnow.scratch] at hpairs
    exact ⟨rfl, rfl, hpairs, hpos⟩
  · have hsame : ({ now with cycles := now.cycles + n : Apu }).output c = now.output c := rfl
    have hfraction := ({ now with cycles := now.cycles + n : Apu }.run_rendered done c).fraction
      (hsame ▸ hnow.fraction)
    have hproduct : stretch * sink.sampleRate ≤ (2 ^ 32 - 1) * (2 ^ 32 - 1) :=
      Nat.mul_le_mul (by omega) (by omega)
    have hclock : clockHz ≤ 2 ^ 32 := by decide
    omega

theorem three_steps_delivered :
    let start := (({} : Apu).setSink .square1 (some (.recorder 32768 #[]))).2
    let before : List Event := [.step 300, .write 0xFF26 0x80]
    let after : List Event := [.connect .wave none, .write 0xFF25 0xFF, .step 204]
    let events := before ++ .step 8200 :: after
    let now := start.performAll before
    (∀ e ∈ events, e.Keeps .square1) ∧
      ((start.delivered .square1 events).map SampleBlock.frames).sum = 68 ∧
      ((start.performAll events).output .square1).sink =
        some (.recorder 32768 (start.delivered .square1 events).toArray) ∧
      ∀ done stretch, done + stretch ≤ 8200 →
        (({ now with cycles := now.cycles + 8200 : Apu }.run done).output .square1).remainder +
          stretch * 32768 < 2 ^ 64 := by
  intro start before after events now
  have hkeep : ∀ e ∈ events, e.Keeps .square1 := by
    simp [events, before, after, Event.Keeps]
  have hdue : totalCycles events * (AudioSink.recorder 32768 #[]).sampleRate / clockHz = 68 := by
    simp [events, before, after, totalCycles, Event.cycles, AudioSink.sampleRate, clockHz]
  obtain ⟨hcount, hrecorder, hsteps⟩ :=
    frames_delivered {} .square1 (.recorder 32768 #[]) events hkeep
  obtain ⟨-, -, hfits⟩ := hsteps before 8200 after rfl
  refine ⟨hkeep, hcount.trans hdue, (hrecorder 32768 #[] rfl).trans ?_, ?_⟩
  · rw [Array.empty_append]
  · exact hfits (by decide) (by decide)

end Apu
end Handheld
