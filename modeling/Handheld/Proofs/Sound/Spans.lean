import Handheld.Proofs.Sound.Queue
import Handheld.Sound.Apu

/-!
A span of cycles in two parts. The sound unit stepped by one part after the other comes to the state
that the whole span brings it to, and its sinks are handed the same samples, in two blocks for one.
-/

namespace Handheld

namespace AudioSink

def take (sink : AudioSink) : Option SampleBlock → AudioSink
  | none => sink
  | some block => sink.accept block

@[simp] theorem take_sampleRate (sink : AudioSink) (block? : Option SampleBlock) :
    (sink.take block?).sampleRate = sink.sampleRate := by
  cases block? with
  | none => rfl
  | some block =>
    cases sink with
    | recorder => rfl
    | queue q => exact q.pushSamples_sampleRate _

end AudioSink

namespace ChannelOutput

section Rendering
variable {α : Type}

theorem renderFrames_add (next : α → Float32 × α) (mix : Mix) (m n : Nat) (voice : α)
    (scratch : Array Sample) :
    renderFrames next mix (m + n) voice scratch =
      renderFrames next mix n (renderFrames next mix m voice scratch).1
        (renderFrames next mix m voice scratch).2 := by
  induction m generalizing voice scratch with
  | zero => simp [renderFrames]
  | succ m ih => simp [Nat.succ_add, renderFrames, ih]

theorem renderFrames_append (next : α → Float32 × α) (mix : Mix) (n : Nat) (voice : α)
    (before scratch : Array Sample) :
    renderFrames next mix n voice (before ++ scratch) =
      ((renderFrames next mix n voice scratch).1,
        before ++ (renderFrames next mix n voice scratch).2) := by
  induction n generalizing voice scratch with
  | zero => simp [renderFrames]
  | succ n ih => simp [renderFrames, ih]

theorem render_add (o : ChannelOutput) (next : Float → α → Float32 × α) (voice : α) (m n : Nat)
    (mix : Mix) :
    o.render next voice (m + n) mix =
      (o.render next voice m mix).2.render next (o.render next voice m mix).1 n mix := by
  cases hsink : o.sink with
  | none => simp [render, hsink]
  | some sink =>
    have hsum : o.remainder + (m + n) * sink.sampleRate =
        clockHz * ((o.remainder + m * sink.sampleRate) / clockHz) +
          ((o.remainder + m * sink.sampleRate) % clockHz + n * sink.sampleRate) := by
      rw [← Nat.add_assoc, Nat.div_add_mod, Nat.add_mul, Nat.add_assoc]
    have hframes : (o.remainder + (m + n) * sink.sampleRate) / clockHz =
        (o.remainder + m * sink.sampleRate) / clockHz +
          ((o.remainder + m * sink.sampleRate) % clockHz + n * sink.sampleRate) / clockHz := by
      rw [hsum, Nat.mul_add_div (by decide)]
    have hcarry : (o.remainder + (m + n) * sink.sampleRate) % clockHz =
        ((o.remainder + m * sink.sampleRate) % clockHz + n * sink.sampleRate) % clockHz := by
      rw [hsum, Nat.mul_add_mod]
    simp only [render, hsink, hframes, hcarry, renderFrames_add]

/-- An output with the same fraction of a frame, for a sink of the same rate, that lacks some of the
samples rendered earlier. -/
structure Trails (before : Array Sample) (o late : ChannelOutput) : Prop where
  scratch : o.scratch = before ++ late.scratch
  remainder : late.remainder = o.remainder
  rate : late.sink.map AudioSink.sampleRate = o.sink.map AudioSink.sampleRate

theorem Trails.render {before : Array Sample} {o late : ChannelOutput} (h : o.Trails before late)
    (next : Float → α → Float32 × α) (voice : α) (cycles : Nat) (mix : Mix) :
    (late.render next voice cycles mix).1 = (o.render next voice cycles mix).1 ∧
      (o.render next voice cycles mix).2.Trails before (late.render next voice cycles mix).2 := by
  obtain ⟨hscratch, hremainder, hrate⟩ := h
  cases hsink : o.sink with
  | none =>
    have hlate : late.sink = none := by simpa [hsink] using hrate
    simp only [ChannelOutput.render, hsink, hlate]
    exact ⟨trivial, hscratch, hremainder, hrate⟩
  | some sink =>
    obtain ⟨sink', hlate, hsame⟩ : ∃ sink', late.sink = some sink' ∧
        sink'.sampleRate = sink.sampleRate := by simpa [hsink] using hrate
    simp only [ChannelOutput.render, hsink, hlate, hsame, hremainder, hscratch, renderFrames_append]
    exact ⟨trivial, rfl, rfl, by simp [hsame]⟩

/-- What rendering a number of cycles does to an output. The samples, each worth half a frame, and
the fraction carried over account for the cycles. -/
structure Rendered (cycles : Nat) (o o' : ChannelOutput) : Prop where
  sink : o'.sink = o.sink
  account : ∀ sink ∈ o.sink, o'.scratch.size * clockHz + 2 * o'.remainder =
    o.scratch.size * clockHz + 2 * o.remainder + 2 * (cycles * sink.sampleRate)
  pairs : o'.scratch.size % 2 = o.scratch.size % 2
  fraction : o.remainder < clockHz → o'.remainder < clockHz

theorem Rendered.refl (o : ChannelOutput) : o.Rendered 0 o :=
  ⟨rfl, by simp, rfl, id⟩

theorem Rendered.trans {m n : Nat} {o o' o'' : ChannelOutput} (h : o.Rendered m o')
    (h' : o'.Rendered n o'') : o.Rendered (m + n) o'' where
  sink := h'.sink.trans h.sink
  account := by
    intro sink hsink
    rw [h'.account sink (h.sink ▸ hsink), h.account sink hsink, Nat.add_mul]
    omega
  pairs := h'.pairs.trans h.pairs
  fraction := h'.fraction ∘ h.fraction

@[simp] theorem size_renderFrames (next : α → Float32 × α) (mix : Mix) (n : Nat) (voice : α)
    (scratch : Array Sample) :
    (renderFrames next mix n voice scratch).2.size = scratch.size + 2 * n := by
  induction n generalizing voice scratch with
  | zero => rfl
  | succ n ih =>
    simp [renderFrames, ih]
    omega

theorem rendered_render (o : ChannelOutput) (next : Float → α → Float32 × α) (voice : α)
    (cycles : Nat) (mix : Mix) : o.Rendered cycles (o.render next voice cycles mix).2 := by
  cases hsink : o.sink with
  | none =>
    have hsame : (o.render next voice cycles mix).2 = o := by simp [render, hsink]
    rw [hsame]
    exact ⟨rfl, by simp [hsink], rfl, id⟩
  | some sink =>
    have hwhole := Nat.div_add_mod (o.remainder + cycles * sink.sampleRate) clockHz
    refine ⟨by simp [render, hsink], ?_, ?_, fun _ => ?_⟩
    · intro sink' hsink'
      obtain rfl : sink = sink' := by simpa [hsink] using hsink'
      simp only [render, hsink, size_renderFrames, Nat.add_mul, Nat.mul_assoc]
      rw [Nat.mul_comm clockHz] at hwhole
      omega
    · simp [render, hsink, size_renderFrames]
    · simpa [render, hsink] using Nat.mod_lt _ (show 0 < clockHz by decide)

end Rendering

def block? (o : ChannelOutput) : Option SampleBlock :=
  if o.sink.isNone || o.scratch.isEmpty then none
  else some { samples := o.scratch, offset := 0, length := o.scratch.size }

theorem window_block? (o : ChannelOutput) :
    o.block?.elim [] SampleBlock.window = if o.sink.isSome then o.scratch.toList else [] := by
  unfold block?
  cases o.sink with
  | none => simp
  | some sink =>
    by_cases h : o.scratch = #[] <;> simp [h, SampleBlock.window]

theorem flush_eq (o : ChannelOutput) :
    o.flush = { o with sink := o.sink.map (·.take o.block?), scratch := #[] } := by
  cases o with
  | mk sink scratch remainder =>
    cases sink with
    | none => simp [flush]
    | some sink =>
      by_cases h : scratch = #[] <;> simp [flush, block?, AudioSink.take, h]

theorem trails_flush (o : ChannelOutput) : o.Trails o.scratch o.flush := by
  rw [flush_eq]
  refine ⟨by simp, rfl, ?_⟩
  cases o.sink with
  | none => rfl
  | some sink => exact congrArg some (sink.take_sampleRate _)

end ChannelOutput

namespace Apu

def tick (a : Apu) (cycles : Nat) : Apu :=
  let (sequencer, ran) := a.sequencer.advance cycles
  let a := { a with sequencer }
  match ran with
  | some step => if a.powered then a.sequence step else a
  | none => a

theorem segment_eq (a : Apu) (cycles : Nat) : a.segment cycles = (a.render cycles).tick cycles :=
  rfl

theorem tick_of_lt {a : Apu} {cycles : Nat} (h : cycles < a.sequencer.counter) :
    a.tick cycles =
      { a with
        sequencer :=
          { a.sequencer with
            counter := a.sequencer.counter - cycles
            counter_pos := Nat.sub_pos_of_lt h } } := by
  simp [tick, Sequencer.advance, h]

theorem tick_of_le {a : Apu} {cycles : Nat} (h : a.sequencer.counter ≤ cycles) :
    a.tick cycles =
      let b := { a with sequencer := .before ((a.sequencer.next + 1) % 8) }
      if a.powered then b.sequence a.sequencer.next else b := by
  simp [tick, Sequencer.advance, Nat.not_lt.mpr h]

theorem tick_add {a : Apu} {m : Nat} (h : m < a.sequencer.counter) (n : Nat) :
    a.tick (m + n) = (a.tick m).tick n := by
  rw [tick_of_lt h]
  by_cases hn : n < a.sequencer.counter - m
  · rw [tick_of_lt (show m + n < a.sequencer.counter by omega), tick_of_lt hn]
    simp only [Nat.sub_add_eq]
  · rw [tick_of_le (show a.sequencer.counter ≤ m + n by omega), tick_of_le (Nat.not_lt.mp hn)]

theorem render_add (a : Apu) (m n : Nat) : a.render (m + n) = (a.render m).render n := by
  simp only [render, ChannelOutput.render_add]
  rfl

theorem segment_add {a : Apu} {m : Nat} (h : m < a.sequencer.counter) (n : Nat) :
    a.segment (m + n) = (a.segment m).segment n := by
  have hm : m < (a.render m).sequencer.counter := h
  have hmn : m < ((a.render m).render n).sequencer.counter := h
  calc a.segment (m + n) = (((a.render m).render n).tick m).tick n := by
        rw [segment_eq, render_add, tick_add hmn]
    _ = (((a.render m).tick m).render n).tick n := by
        rw [tick_of_lt hmn, tick_of_lt hm]
        rfl
    _ = (a.segment m).segment n := rfl

theorem segment_counter {a : Apu} {m : Nat} (h : m < a.sequencer.counter) :
    (a.segment m).sequencer.counter = a.sequencer.counter - m := by
  have hm : m < (a.render m).sequencer.counter := h
  rw [segment_eq, tick_of_lt hm]
  rfl

@[simp] theorem run_zero (a : Apu) : a.run 0 = a := by rw [run, if_pos rfl]

theorem run_of_pos (a : Apu) {n : Nat} (h : 0 < n) :
    a.run n = (a.segment (min n a.sequencer.counter)).run (n - min n a.sequencer.counter) := by
  rw [run, if_neg (Nat.ne_of_gt h)]

/-- A stretch that does not reach past the next step of the sequencer can be run by itself. -/
theorem run_segment {a : Apu} {m : Nat} (hpos : 0 < m) (h : m ≤ a.sequencer.counter) (n : Nat) :
    a.run (m + n) = (a.segment m).run n := by
  rw [run_of_pos a (show 0 < m + n by omega)]
  -- Short of the sequencer's step, the stretch and what follows up to that step are run as one.
  rcases Nat.lt_or_eq_of_le h with hlt | rfl
  · rcases Nat.eq_zero_or_pos n with rfl | hn
    · rw [Nat.add_zero, Nat.min_eq_left h, Nat.sub_self]
    · have hspan : min (m + n) a.sequencer.counter = m + min n (a.sequencer.counter - m) := by omega
      rw [hspan, segment_add hlt, run_of_pos (a.segment m) hn, segment_counter hlt,
        Nat.add_sub_add_left]
  · rw [Nat.min_eq_right (Nat.le_add_right ..), Nat.add_sub_cancel_left]

theorem run_add (a : Apu) (m n : Nat) : a.run (m + n) = (a.run m).run n := by
  induction a, m using Apu.run.induct with
  | case1 a => rw [run_zero, Nat.zero_add]
  | case2 a m hsome span ih =>
    have hpos : 0 < span := by have := a.sequencer.counter_pos; omega
    have hreach : span ≤ a.sequencer.counter := Nat.min_le_right ..
    have hm : m = span + (m - span) := by omega
    calc a.run (m + n) = (a.segment span).run (m - span + n) := by
          rw [← run_segment hpos hreach, ← Nat.add_assoc, ← hm]
      _ = ((a.segment span).run (m - span)).run n := ih
      _ = (a.run m).run n := by rw [← run_segment hpos hreach, ← hm]

def carrying (a : Apu) (outputs : Channel → ChannelOutput) (cycles : Nat) : Apu :=
  { a with
    output1 := outputs .square1
    output2 := outputs .square2
    output3 := outputs .wave
    output4 := outputs .noise
    cycles }

@[simp] theorem output_carrying (a : Apu) (outputs : Channel → ChannelOutput) (cycles : Nat)
    (c : Channel) : (a.carrying outputs cycles).output c = outputs c := by
  cases c <;> rfl

theorem sequence_carrying (a : Apu) (outputs : Channel → ChannelOutput) (cycles step : Nat) :
    (a.carrying outputs cycles).sequence step = (a.sequence step).carrying outputs cycles := by
  unfold sequence
  dsimp only
  split <;> split <;> split <;> rfl

theorem tick_carrying (a : Apu) (outputs : Channel → ChannelOutput) (cycles n : Nat) :
    (a.carrying outputs cycles).tick n = (a.tick n).carrying outputs cycles := by
  rcases Nat.lt_or_ge n a.sequencer.counter with h | h
  · rw [tick_of_lt h, tick_of_lt (show n < (a.carrying outputs cycles).sequencer.counter from h)]
    rfl
  · rw [tick_of_le h, tick_of_le (show (a.carrying outputs cycles).sequencer.counter ≤ n from h)]
    simp only [apply_ite (carrying · outputs cycles), ← sequence_carrying]
    rfl

theorem kept_of_carrying (f : Apu → Apu)
    (h : ∀ a outputs cycles, f (a.carrying outputs cycles) = (f a).carrying outputs cycles)
    (a : Apu) : f a = (f a).carrying a.output a.cycles := by
  have hself : a.carrying a.output a.cycles = a := rfl
  rw [← h, hself]

@[simp] theorem tick_output (a : Apu) (n : Nat) (c : Channel) : (a.tick n).output c = a.output c := by
  rw [kept_of_carrying (tick · n) (tick_carrying · · · n) a, output_carrying]

theorem writeChannel_carrying (a : Apu) (outputs : Channel → ChannelOutput) (cycles : Nat)
    (address : UInt16) (v : UInt8) : (a.carrying outputs cycles).writeChannel address v =
      (a.writeChannel address v).carrying outputs cycles := by
  unfold writeChannel
  split <;> rfl

theorem writePower_carrying (a : Apu) (outputs : Channel → ChannelOutput) (cycles : Nat)
    (v : UInt8) : (a.carrying outputs cycles).writePower v =
      (a.writePower v).carrying outputs cycles := by
  have hpower : (a.carrying outputs cycles).powered = a.powered := rfl
  unfold writePower
  rw [hpower]
  dsimp only
  split
  · rfl
  split <;> rfl

theorem writeRegister_carrying (a : Apu) (outputs : Channel → ChannelOutput) (cycles : Nat)
    (address : UInt16) (v : UInt8) : (a.carrying outputs cycles).writeRegister address v =
      (a.writeRegister address v).carrying outputs cycles := by
  have hpower : (a.carrying outputs cycles).powered = a.powered := rfl
  unfold writeRegister
  rw [hpower]
  split
  · exact writePower_carrying a outputs cycles v
  split
  · rfl
  split
  · exact writeChannel_carrying
      { a with registers := a.registers.write (address - 0xFF10).toNat v } outputs cycles address v
  · rfl

theorem writeRegisters_carrying (writes : List (UInt16 × UInt8)) (a : Apu)
    (outputs : Channel → ChannelOutput) (cycles : Nat) :
    writes.foldl (fun a w => a.writeRegister w.1 w.2) (a.carrying outputs cycles) =
      (writes.foldl (fun a w => a.writeRegister w.1 w.2) a).carrying outputs cycles := by
  induction writes generalizing a with
  | nil => rfl
  | cons w rest ih => rw [List.foldl_cons, writeRegister_carrying, ih, List.foldl_cons]

theorem afterBoot_carrying (a : Apu) (outputs : Channel → ChannelOutput) (cycles : Nat) :
    (a.carrying outputs cycles).afterBoot = a.afterBoot.carrying outputs cycles := by
  have hwritten := writeRegisters_carrying bootWrites (a.writePower 0x80) outputs cycles
  rw [← writePower_carrying] at hwritten
  simp only [afterBoot, hwritten]
  rfl

theorem render_trails {a : Apu} {before : Channel → Array Sample}
    {outputs : Channel → ChannelOutput}
    (h : ∀ c, (a.output c).Trails (before c) (outputs c)) (cycles n : Nat) :
    ∃ outputs', (a.carrying outputs cycles).render n = (a.render n).carrying outputs' cycles ∧
      ∀ c, ((a.render n).output c).Trails (before c) (outputs' c) := by
  obtain ⟨hvoice1, htrails1⟩ :=
    (h .square1).render SquareChannel.nextLevel a.square1 n (a.mix .square1)
  obtain ⟨hvoice2, htrails2⟩ :=
    (h .square2).render SquareChannel.nextLevel a.square2 n (a.mix .square2)
  obtain ⟨hvoice3, htrails3⟩ := (h .wave).render WaveChannel.nextLevel a.wave n (a.mix .wave)
  obtain ⟨hvoice4, htrails4⟩ := (h .noise).render NoiseChannel.nextLevel a.noise n (a.mix .noise)
  refine ⟨((a.carrying outputs cycles).render n).output, ?_, fun c => ?_⟩
  · have hrender : (a.carrying outputs cycles).render n =
        { a.carrying ((a.carrying outputs cycles).render n).output cycles with
          square1 :=
            ((outputs .square1).render SquareChannel.nextLevel a.square1 n (a.mix .square1)).1
          square2 :=
            ((outputs .square2).render SquareChannel.nextLevel a.square2 n (a.mix .square2)).1
          wave := ((outputs .wave).render WaveChannel.nextLevel a.wave n (a.mix .wave)).1
          noise := ((outputs .noise).render NoiseChannel.nextLevel a.noise n (a.mix .noise)).1 } :=
      rfl
    rw [hrender, hvoice1, hvoice2, hvoice3, hvoice4]
    rfl
  · cases c with
    | square1 => exact htrails1
    | square2 => exact htrails2
    | wave => exact htrails3
    | noise => exact htrails4

theorem segment_trails {a : Apu} {before : Channel → Array Sample}
    {outputs : Channel → ChannelOutput}
    (h : ∀ c, (a.output c).Trails (before c) (outputs c)) (cycles n : Nat) :
    ∃ outputs', (a.carrying outputs cycles).segment n = (a.segment n).carrying outputs' cycles ∧
      ∀ c, ((a.segment n).output c).Trails (before c) (outputs' c) := by
  obtain ⟨outputs', hrender, htrails⟩ := render_trails h cycles n
  refine ⟨outputs', ?_, fun c => ?_⟩
  · rw [segment_eq, hrender, tick_carrying, ← segment_eq]
  · rw [segment_eq, tick_output]
    exact htrails c

theorem run_trails {before : Channel → Array Sample} (cycles : Nat) (a : Apu) (n : Nat) :
    ∀ outputs, (∀ c, (a.output c).Trails (before c) (outputs c)) →
      ∃ outputs', (a.carrying outputs cycles).run n = (a.run n).carrying outputs' cycles ∧
        ∀ c, ((a.run n).output c).Trails (before c) (outputs' c) := by
  induction a, n using Apu.run.induct with
  | case1 a =>
    intro outputs h
    rw [run_zero, run_zero]
    exact ⟨outputs, rfl, h⟩
  | case2 a n hsome span ih =>
    intro outputs h
    have hpos := Nat.pos_of_ne_zero hsome
    obtain ⟨outputs', hsegment, htrails⟩ := segment_trails h cycles span
    have hrun : (a.carrying outputs cycles).run n =
        ((a.carrying outputs cycles).segment span).run (n - span) := run_of_pos _ hpos
    rw [hrun, hsegment, run_of_pos a hpos]
    exact ih outputs' htrails

theorem tick_atCycles (a : Apu) (cycles n : Nat) :
    { a with cycles : Apu }.tick n = { a.tick n with cycles } :=
  calc { a with cycles : Apu }.tick n = (a.tick n).carrying a.output cycles :=
        tick_carrying a a.output cycles n
    _ = { a.tick n with cycles } := by
        rw [← funext (a.tick_output n)]
        rfl

theorem run_atCycles (a : Apu) (cycles n : Nat) :
    { a with cycles : Apu }.run n = { a.run n with cycles } := by
  induction a, n using Apu.run.induct with
  | case1 a => rw [run_zero, run_zero]
  | case2 a n hsome span ih =>
    have hpos := Nat.pos_of_ne_zero hsome
    have hsegment : { a with cycles : Apu }.segment span = { a.segment span with cycles } :=
      tick_atCycles (a.render span) cycles span
    rw [run_of_pos a hpos, run_of_pos _ hpos]
    exact (congrArg (·.run (n - span)) hsegment).trans ih

def unheard (a : Apu) : Apu :=
  a.carrying (fun c => { a.output c with sink := none }) a.cycles

def handed? (a : Apu) (cycles : Nat) (c : Channel) : Option SampleBlock :=
  (({ a with cycles := a.cycles + cycles : Apu }.run cycles).output c).block?

def handedSamples (a : Apu) (cycles : Nat) (c : Channel) : List Sample :=
  (a.handed? cycles c).elim [] SampleBlock.window

theorem step_eq (a : Apu) (n : Nat) :
    a.step n = (a.run n).carrying (fun c => ((a.run n).output c).flush) (a.cycles + n) := by
  rw [step, run_atCycles]
  rfl

theorem handed?_eq (a : Apu) (n : Nat) (c : Channel) :
    a.handed? n c = ((a.run n).output c).block? := by
  rw [handed?, run_atCycles]
  cases c <;> rfl

theorem render_rendered (a : Apu) (n : Nat) (c : Channel) :
    (a.output c).Rendered n ((a.render n).output c) := by
  cases c with
  | square1 | square2 | wave | noise => exact ChannelOutput.rendered_render ..

theorem run_rendered (a : Apu) (n : Nat) (c : Channel) :
    (a.output c).Rendered n ((a.run n).output c) := by
  induction a, n using Apu.run.induct with
  | case1 a =>
    rw [run_zero]
    exact .refl _
  | case2 a n hsome span ih =>
    have hpos := Nat.pos_of_ne_zero hsome
    have hspan : span + (n - span) = n := Nat.add_sub_cancel' (Nat.min_le_left ..)
    have hsegment : (a.output c).Rendered span ((a.segment span).output c) := by
      rw [segment_eq, tick_output]
      exact a.render_rendered span c
    rw [run_of_pos a hpos]
    have hrun := hsegment.trans ih
    rwa [hspan] at hrun

theorem step_sink (a : Apu) (n : Nat) (c : Channel) :
    ((a.step n).output c).sink = (a.output c).sink.map (·.take (a.handed? n c)) := by
  rw [step_eq, output_carrying, ChannelOutput.flush_eq, handed?_eq, (a.run_rendered n c).sink]

theorem unheard_flush (a : Apu) (outputs : Channel → ChannelOutput) (cycles : Nat) :
    (a.carrying (fun c => (outputs c).flush) cycles).unheard =
      a.carrying (fun c => { remainder := (outputs c).remainder }) cycles := by
  simp only [unheard, output_carrying, ChannelOutput.flush_eq]
  rfl

/-- A span stepped in two parts ends in the state that it ends in when stepped at once, whatever the
state before: the four voices, the registers, the sequencer, the fractions of frames carried over
and the count of cycles are all the same. The samples handed to each sink are those of the whole
span in their order; only the blocks differ that they come in. -/
theorem step_add (a : Apu) (m n : Nat) :
    ((a.step m).step n).unheard = (a.step (m + n)).unheard ∧ ∀ c,
      a.handedSamples m c ++ (a.step m).handedSamples n c = a.handedSamples (m + n) c ∧
      ((a.step (m + n)).output c).sink = (a.output c).sink.map (·.take (a.handed? (m + n) c)) ∧
      (((a.step m).step n).output c).sink = (a.output c).sink.map fun sink =>
        (sink.take (a.handed? m c)).take ((a.step m).handed? n c) := by
  -- The second step renders as if none were made between, but for the samples already handed over.
  obtain ⟨outputs, hrun, htrails⟩ := run_trails (a.cycles + m) (a.run m) n _
    fun c => ((a.run m).output c).trails_flush
  rw [← step_eq, ← run_add] at hrun
  rw [← run_add] at htrails
  refine ⟨?_, fun c => ⟨?_, a.step_sink (m + n) c, ?_⟩⟩
  · have hsplit : (a.step m).step n =
        (a.run (m + n)).carrying (fun c => (outputs c).flush) (a.cycles + (m + n)) := by
      rw [step_eq (a.step m), hrun, ← Nat.add_assoc]
      simp only [output_carrying]
      rw [step_eq a m]
      rfl
    rw [hsplit, step_eq, unheard_flush, unheard_flush]
    simp only [(htrails _).remainder]
  · have hfirst := (a.run_rendered m c).sink
    have hwhole := (a.run_rendered (m + n) c).sink
    have hsecond : (outputs c).sink.isSome = (a.output c).sink.isSome := by
      have hrate := congrArg Option.isSome (htrails c).rate
      rwa [Option.isSome_map, Option.isSome_map, hwhole] at hrate
    simp only [handedSamples, handed?_eq, hrun, output_carrying, ChannelOutput.window_block?,
      hfirst, hwhole, hsecond, (htrails c).scratch]
    split <;> simp
  · rw [step_sink, step_sink, Option.map_map]
    rfl

end Apu
end Handheld
