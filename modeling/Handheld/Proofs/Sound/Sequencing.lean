import Handheld.Proofs.Sound.Ranges

/-!
The slow controls since the power was switched on. Whatever happened in between, the sequencer is
where the count of cycles puts it, and a span clocks each control by the steps that fall into it.
-/

namespace Handheld

namespace LengthCounter

theorem iterate_clock (c : LengthCounter) (n : Nat) :
    clock^[n] c = if c.enabled then { c with remaining := c.remaining - n } else c := by
  induction n with
  | zero => simp
  | succ n ih =>
    rw [Function.iterate_succ_apply', ih]
    cases h : c.enabled <;> simp [clock, h, Nat.sub_sub]

end LengthCounter

namespace SquareChannel

def tuning (c : SquareChannel) : Option Sweep × Nat × Bool := (c.sweep, c.frequency, c.enabled)

variable {c c' : SquareChannel}

theorem clockSweep_tuning (h : c.tuning = c'.tuning) :
    c.clockSweep.tuning = c'.clockSweep.tuning := by
  simp only [tuning, Prod.mk.injEq] at h
  obtain ⟨hsweep, hfrequency, henabled⟩ := h
  unfold clockSweep
  rw [hsweep]
  cases c'.sweep with
  | none => simp [tuning, hsweep, hfrequency, henabled]
  | some s => cases h : s.clock.2 <;> simp [tuning, h, hfrequency, henabled]

theorem clockSweep_kept (c : SquareChannel) :
    c.clockSweep.length = c.length ∧ c.clockSweep.envelope = c.envelope := by
  unfold clockSweep
  cases c.sweep with
  | none => simp
  | some s => cases h : s.clock.2 <;> simp [h]

theorem iterate_clockSweep_tuning (h : c.tuning = c'.tuning) (n : Nat) :
    (clockSweep^[n] c).tuning = (clockSweep^[n] c').tuning := by
  induction n with
  | zero => exact h
  | succ n ih =>
    rw [Function.iterate_succ_apply', Function.iterate_succ_apply']
    exact clockSweep_tuning ih

end SquareChannel

theorem NoiseChannel.nextLevel_kept (c : NoiseChannel) (rate : Float) :
    (c.nextLevel rate).2.length = c.length ∧ (c.nextLevel rate).2.envelope = c.envelope := by
  simp only [nextLevel, advance]
  split <;> exact ⟨rfl, rfl⟩

namespace Sequencer

structure Elapsed (cycles : Nat) (s : Sequencer) : Prop where
  next : s.next = cycles / sequencerPeriod % 8
  counter : s.counter = sequencerPeriod - cycles % sequencerPeriod

theorem start_elapsed : start.Elapsed 0 := ⟨rfl, rfl⟩

section

variable {s : Sequencer} {cycles : Nat}

theorem Elapsed.wait (h : s.Elapsed cycles) {n : Nat} (hn : n < s.counter) :
    (cycles + n) / sequencerPeriod = cycles / sequencerPeriod ∧
      s.counter - n = sequencerPeriod - (cycles + n) % sequencerPeriod := by
  have hcounter := h.counter
  have hwhole := Nat.div_add_mod cycles sequencerPeriod
  simp only [sequencerPeriod] at *
  omega

theorem Elapsed.finish (h : s.Elapsed cycles) :
    (cycles + s.counter) / sequencerPeriod = cycles / sequencerPeriod + 1 ∧
      (cycles + s.counter) % sequencerPeriod = 0 := by
  have hcounter := h.counter
  have hwhole := Nat.div_add_mod cycles sequencerPeriod
  have hleft := Nat.mod_lt cycles sequencerPeriod_pos
  simp only [sequencerPeriod] at *
  omega

end

def lengthClocks (steps : Nat) : Nat := (steps + 1) / 2

def sweepClocks (steps : Nat) : Nat := (steps + 5) / 8 + (steps + 1) / 8

def envelopeClocks (steps : Nat) : Nat := steps / 8

theorem lengthClocks_succ (k : Nat) :
    lengthClocks (k + 1) - lengthClocks k = if k % 8 % 2 = 0 then 1 else 0 := by
  unfold lengthClocks
  split <;> omega

theorem sweepClocks_succ (k : Nat) :
    sweepClocks (k + 1) - sweepClocks k = if k % 8 = 2 || k % 8 = 6 then 1 else 0 := by
  simp only [sweepClocks, Bool.or_eq_true, decide_eq_true_eq]
  split <;> omega

theorem envelopeClocks_succ (k : Nat) :
    envelopeClocks (k + 1) - envelopeClocks k = if k % 8 = 7 then 1 else 0 := by
  unfold envelopeClocks
  split <;> omega

end Sequencer

namespace Apu

def length (a : Apu) : Channel → LengthCounter
  | .square1 => a.square1.length
  | .square2 => a.square2.length
  | .wave => a.wave.length
  | .noise => a.noise.length

def envelope? (a : Apu) : Channel → Option Envelope
  | .square1 => a.square1.envelope
  | .square2 => a.square2.envelope
  | .wave => none
  | .noise => a.noise.envelope

/-- The slow controls have been clocked so many times, and nothing else has happened to them. -/
structure Clocked (lengths sweeps envelopes : Nat) (a a' : Apu) : Prop where
  length : ∀ c, a'.length c = LengthCounter.clock^[lengths] (a.length c)
  sweep : a'.square1.tuning = (SquareChannel.clockSweep^[sweeps] a.square1).tuning
  envelope : ∀ c, a'.envelope? c = (a.envelope? c).map Envelope.clock^[envelopes]

theorem Clocked.of_kept {a a' : Apu} (hlength : a'.length = a.length)
    (hsweep : a'.square1.tuning = a.square1.tuning) (henvelope : a'.envelope? = a.envelope?) :
    Clocked 0 0 0 a a' :=
  ⟨by simp [hlength], by simpa using hsweep, by simp [henvelope]⟩

theorem Clocked.trans {l w e l' w' e' : Nat} {a a' a'' : Apu} (h : Clocked l w e a a')
    (h' : Clocked l' w' e' a' a'') : Clocked (l' + l) (w' + w) (e' + e) a a'' where
  length c := by rw [h'.length, h.length, Function.iterate_add_apply]
  sweep := by
    rw [h'.sweep, Function.iterate_add_apply]
    exact SquareChannel.iterate_clockSweep_tuning h.sweep w'
  envelope c := by rw [h'.envelope, h.envelope, Option.map_map, Function.iterate_add]

/-- Clocked as often as a unit is that had the power on for so many cycles before and after. -/
def ClockedOver (cycles cycles' : Nat) : Apu → Apu → Prop :=
  let k := cycles / sequencerPeriod
  let k' := cycles' / sequencerPeriod
  Clocked (Sequencer.lengthClocks k' - Sequencer.lengthClocks k)
    (Sequencer.sweepClocks k' - Sequencer.sweepClocks k)
    (Sequencer.envelopeClocks k' - Sequencer.envelopeClocks k)

theorem ClockedOver.trans {l m n : Nat} {a a' a'' : Apu} (h : ClockedOver l m a a')
    (h' : ClockedOver m n a' a'') (hlm : l ≤ m) (hmn : m ≤ n) : ClockedOver l n a a'' := by
  have hl : l / sequencerPeriod ≤ m / sequencerPeriod := Nat.div_le_div_right hlm
  have hm : m / sequencerPeriod ≤ n / sequencerPeriod := Nat.div_le_div_right hmn
  have hboth := Clocked.trans h h'
  unfold ClockedOver
  convert hboth using 1 <;>
    simp only [Sequencer.lengthClocks, Sequencer.sweepClocks, Sequencer.envelopeClocks] <;> omega

variable {a : Apu}

theorem clockedOver_of_kept {a' : Apu} (hlength : a'.length = a.length)
    (hsweep : a'.square1.tuning = a.square1.tuning) (henvelope : a'.envelope? = a.envelope?)
    {m n : Nat} (h : m / sequencerPeriod = n / sequencerPeriod) : ClockedOver m n a a' := by
  simpa [ClockedOver, h] using Clocked.of_kept hlength hsweep henvelope

theorem clockLengths_clocked (a : Apu) : Clocked 1 0 0 a a.clockLengths where
  length c := by cases c <;> rfl
  sweep := rfl
  envelope c := by cases c <;> rfl

theorem clockSweep_clocked (a : Apu) : Clocked 0 1 0 a a.clockSweep where
  length c := by
    cases c with
    | square1 => exact a.square1.clockSweep_kept.1
    | square2 | wave | noise => rfl
  sweep := rfl
  envelope c := by
    cases c with
    | square1 => exact congrArg some a.square1.clockSweep_kept.2
    | square2 | wave | noise => rfl

theorem clockEnvelopes_clocked (a : Apu) : Clocked 0 0 1 a a.clockEnvelopes where
  length c := by cases c <;> rfl
  sweep := rfl
  envelope c := by cases c <;> rfl

theorem Clocked.ite {p : Prop} [Decidable p] {l w e : Nat} {a' : Apu} (h : Clocked l w e a a') :
    Clocked (if p then l else 0) (if p then w else 0) (if p then e else 0) a
      (if p then a' else a) := by
  split
  · exact h
  · exact .of_kept rfl rfl rfl

theorem sequence_clocked (a : Apu) (step : Nat) :
    Clocked (if step % 2 = 0 then 1 else 0) (if step = 2 || step = 6 then 1 else 0)
      (if step = 7 then 1 else 0) a (a.sequence step) := by
  have hlengths := a.clockLengths_clocked.ite (p := step % 2 = 0)
  have hsweep := clockSweep_clocked (if step % 2 = 0 then a.clockLengths else a) |>.ite
    (p := step = 2 || step = 6)
  have henvelopes := (hlengths.trans hsweep).trans ((clockEnvelopes_clocked _).ite (p := step = 7))
  simpa [sequence] using henvelopes

theorem sequence_kept (a : Apu) (step : Nat) :
    (a.sequence step).powered = a.powered ∧ (a.sequence step).sequencer = a.sequencer := by
  unfold sequence
  dsimp only
  split <;> split <;> split <;> exact ⟨rfl, rfl⟩

structure PoweredFor (cycles : Nat) (a : Apu) : Prop where
  powered : a.powered
  sequencer : a.sequencer.Elapsed cycles

theorem render_clocked (a : Apu) (n : Nat) : Clocked 0 0 0 a (a.render n) := by
  refine .of_kept (funext fun c => ?_) ?_ (funext fun c => ?_)
  · cases c with
    | square1 => exact a.output1.render_kept SquareChannel.length (fun _ _ => rfl) ..
    | square2 => exact a.output2.render_kept SquareChannel.length (fun _ _ => rfl) ..
    | wave => exact a.output3.render_kept WaveChannel.length (fun _ _ => rfl) ..
    | noise =>
      refine a.output4.render_kept NoiseChannel.length (fun rate voice => ?_) ..
      exact (voice.nextLevel_kept rate).1
  · exact a.output1.render_kept SquareChannel.tuning (fun _ _ => rfl) ..
  · cases c with
    | square1 =>
      exact congrArg some (a.output1.render_kept SquareChannel.envelope (fun _ _ => rfl) ..)
    | square2 =>
      exact congrArg some (a.output2.render_kept SquareChannel.envelope (fun _ _ => rfl) ..)
    | wave => rfl
    | noise =>
      refine congrArg some (a.output4.render_kept NoiseChannel.envelope (fun rate voice => ?_) ..)
      exact (voice.nextLevel_kept rate).2

variable {cycles n : Nat}

theorem PoweredFor.wait (h : a.PoweredFor cycles) (hn : n < a.sequencer.counter) :
    (a.tick n).PoweredFor (cycles + n) ∧ ClockedOver cycles (cycles + n) a (a.tick n) := by
  obtain ⟨hsame, hcounter⟩ := h.sequencer.wait hn
  rw [tick_of_lt hn]
  refine ⟨⟨h.powered, ?_, hcounter⟩, clockedOver_of_kept (by rfl) (by rfl) (by rfl) hsame.symm⟩
  rw [hsame]
  exact h.sequencer.next

theorem PoweredFor.finish (h : a.PoweredFor cycles) :
    let n := a.sequencer.counter
    (a.tick n).PoweredFor (cycles + n) ∧ ClockedOver cycles (cycles + n) a (a.tick n) := by
  intro n
  obtain ⟨hsucc, hzero⟩ := h.sequencer.finish
  let b : Apu := { a with sequencer := .before ((a.sequencer.next + 1) % 8) }
  have htick : a.tick n = b.sequence a.sequencer.next := by
    simp [tick_of_le (Nat.le_refl _), h.powered, b, n]
  have hclocked : Clocked 0 0 0 a b := .of_kept rfl rfl rfl
  obtain ⟨hpowered, hsequencer⟩ := b.sequence_kept a.sequencer.next
  rw [htick]
  refine ⟨⟨hpowered.trans h.powered, ?_, ?_⟩, ?_⟩
  · rw [hsequencer, hsucc]
    simp [b, Sequencer.before, h.sequencer.next]
  · rw [hsequencer, hzero]
    rfl
  · have hstep := hclocked.trans (b.sequence_clocked a.sequencer.next)
    simpa only [ClockedOver, n, hsucc, Sequencer.lengthClocks_succ, Sequencer.sweepClocks_succ,
      Sequencer.envelopeClocks_succ, h.sequencer.next, Nat.add_zero] using hstep

theorem PoweredFor.segment (h : a.PoweredFor cycles) (hn : n ≤ a.sequencer.counter) :
    (a.segment n).PoweredFor (cycles + n) ∧ ClockedOver cycles (cycles + n) a (a.segment n) := by
  have hrender : (a.render n).PoweredFor cycles := ⟨h.powered, h.sequencer⟩
  obtain ⟨hpowered, hclocked⟩ : (a.segment n).PoweredFor (cycles + n) ∧
      ClockedOver cycles (cycles + n) (a.render n) (a.segment n) := by
    rcases Nat.lt_or_eq_of_le hn with hlt | rfl
    · exact hrender.wait hlt
    · exact hrender.finish
  have hsegment : ClockedOver cycles cycles a (a.render n) := by
    simpa [ClockedOver] using a.render_clocked n
  exact ⟨hpowered, hsegment.trans hclocked (Nat.le_refl _) (Nat.le_add_right ..)⟩

theorem run_poweredFor (a : Apu) (n : Nat) : ∀ cycles, a.PoweredFor cycles →
    (a.run n).PoweredFor (cycles + n) ∧ ClockedOver cycles (cycles + n) a (a.run n) := by
  induction a, n using Apu.run.induct with
  | case1 a =>
    intro cycles h
    simpa [ClockedOver] using And.intro h (Clocked.of_kept rfl rfl rfl)
  | case2 a n hsome span ih =>
    intro cycles h
    have hspan : cycles + span + (n - span) = cycles + n := by omega
    obtain ⟨hpowered, hclocked⟩ := h.segment (n := span) (Nat.min_le_right ..)
    obtain ⟨hpowered', hclocked'⟩ := ih _ hpowered
    rw [hspan] at hpowered' hclocked'
    rw [run_of_pos a (Nat.pos_of_ne_zero hsome)]
    exact ⟨hpowered', hclocked.trans hclocked' (by omega) (by omega)⟩

theorem PoweredFor.step (h : a.PoweredFor cycles) (n : Nat) :
    (a.step n).PoweredFor (cycles + n) ∧ ClockedOver cycles (cycles + n) a (a.step n) := by
  obtain ⟨⟨hpowered, hsequencer⟩, hclocked⟩ := a.run_poweredFor n cycles h
  have hflush : ClockedOver (cycles + n) (cycles + n) (a.run n) (a.step n) := by
    rw [step_eq]
    apply clockedOver_of_kept <;> rfl
  refine ⟨?_, hclocked.trans hflush (Nat.le_add_right ..) (Nat.le_refl _)⟩
  rw [step_eq]
  exact ⟨hpowered, hsequencer⟩

theorem writeChannel_sequencer (a : Apu) (address : UInt16) (v : UInt8) :
    (a.writeChannel address v).sequencer = a.sequencer := by
  unfold writeChannel
  split <;> rfl

theorem writeRegister_sequencer (a : Apu) {address : UInt16} (h : address ≠ 0xFF26) (v : UInt8) :
    (a.writeRegister address v).sequencer = a.sequencer := by
  unfold writeRegister
  rw [if_neg h]
  split
  · rfl
  split
  · exact writeChannel_sequencer _ _ _
  · rfl

theorem PoweredFor.writeRegister (h : a.PoweredFor cycles) {address : UInt16} {v : UInt8}
    (hkeep : address = 0xFF26 → v &&& 0x80 ≠ 0) :
    (a.writeRegister address v).PoweredFor cycles := by
  by_cases haddress : address = 0xFF26
  · have hsame : a.writeRegister address v = a := by
      simp [Apu.writeRegister, haddress, writePower, h.powered, hkeep haddress]
    rwa [hsame]
  · refine ⟨?_, ?_⟩
    · rw [a.writeRegister_powered haddress v]
      exact h.powered
    · rw [a.writeRegister_sequencer haddress v]
      exact h.sequencer

theorem PoweredFor.afterBoot (h : a.PoweredFor cycles) : a.afterBoot.PoweredFor cycles := by
  have hstart : (a.writeRegister 0xFF26 0x80).PoweredFor cycles := h.writeRegister (by simp)
  have hwritten : (bootWrites.foldl (fun a w => a.writeRegister w.1 w.2)
      (a.writePower 0x80)).PoweredFor cycles :=
    List.foldlRecOn (motive := PoweredFor cycles) bootWrites _ hstart
      fun b hb w hw => hb.writeRegister fun haddress => absurd haddress (bootWrites_power w hw)
  exact ⟨hwritten.powered, hwritten.sequencer⟩

def Event.KeepsPower : Event → Prop
  | .write address v => address = 0xFF26 → v &&& 0x80 ≠ 0
  | _ => True

def Event.Quiet : Event → Prop
  | .write .. | .boot => False
  | _ => True

theorem PoweredFor.setOutput (h : a.PoweredFor cycles) (c : Channel) (o : ChannelOutput) :
    (a.setOutput c o).PoweredFor cycles := by
  cases c <;> exact ⟨h.powered, h.sequencer⟩

theorem PoweredFor.perform (h : a.PoweredFor cycles) {e : Event} (hkeep : e.KeepsPower) :
    (a.perform e).PoweredFor (cycles + e.cycles) := by
  cases e with
  | step n => exact (h.step n).1
  | write address v => exact h.writeRegister hkeep
  | boot => exact h.afterBoot
  | connect c sink => exact h.setOutput c _
  | drain c => exact h.setOutput c _

theorem PoweredFor.performAll (h : a.PoweredFor cycles) {events : List Event}
    (hkeep : ∀ e ∈ events, e.KeepsPower) :
    (a.performAll events).PoweredFor (cycles + totalCycles events) := by
  induction events generalizing a cycles with
  | nil => exact h
  | cons e rest ih =>
    have hrest := ih (h.perform (hkeep e (by simp))) fun e' he' => hkeep e' (by simp [he'])
    simpa [Apu.performAll, totalCycles, Nat.add_assoc] using hrest

theorem Event.Quiet.keepsPower {e : Event} (h : e.Quiet) : e.KeepsPower := by
  cases e <;> simp_all [Event.Quiet, Event.KeepsPower]

theorem PoweredFor.perform_clocked (h : a.PoweredFor cycles) {e : Event} (hquiet : e.Quiet) :
    ClockedOver cycles (cycles + e.cycles) a (a.perform e) := by
  cases e with
  | step n => exact (h.step n).2
  | write | boot => exact hquiet.elim
  | connect c | drain c => cases c <;> (apply clockedOver_of_kept <;> rfl)

theorem PoweredFor.performAll_clocked (h : a.PoweredFor cycles) {events : List Event}
    (hquiet : ∀ e ∈ events, e.Quiet) :
    ClockedOver cycles (cycles + totalCycles events) a (a.performAll events) := by
  induction events generalizing a cycles with
  | nil => apply clockedOver_of_kept <;> rfl
  | cons e rest ih =>
    have hfirst := hquiet e (by simp)
    have hrest := ih (h.perform hfirst.keepsPower) fun e' he' => hquiet e' (by simp [he'])
    have htotal : cycles + totalCycles (e :: rest) = cycles + e.cycles + totalCycles rest := by
      simp [totalCycles, Nat.add_assoc]
    rw [htotal]
    exact (h.perform_clocked hfirst).trans hrest (Nat.le_add_right ..) (Nat.le_add_right ..)

theorem poweredFor_switched_on {v : UInt8} (hoff : a.powered = false) (hon : v &&& 0x80 ≠ 0) :
    (a.writeRegister 0xFF26 v).PoweredFor 0 := by
  have hstart : a.writeRegister 0xFF26 v = a.powerOn := by
    simp [writeRegister, writePower, hoff, hon]
  rw [hstart]
  exact ⟨rfl, Sequencer.start_elapsed⟩

theorem sequence_channelOn (a : Apu) (step : Nat) {c : Channel} (h : c ≠ .square1) :
    (a.sequence step).channelOn c = a.channelOn c := by
  unfold sequence
  dsimp only
  split <;> split <;> split <;> cases c <;> first | rfl | contradiction

theorem tick_channelOn (a : Apu) (n : Nat) {c : Channel} (h : c ≠ .square1) :
    (a.tick n).channelOn c = a.channelOn c := by
  rcases Nat.lt_or_ge n a.sequencer.counter with hlt | hle
  · rw [tick_of_lt hlt]
    cases c <;> rfl
  · rw [tick_of_le hle]
    dsimp only
    split
    · rw [sequence_channelOn _ _ h]
      cases c <;> rfl
    · cases c <;> rfl

theorem run_channelOn (a : Apu) (n : Nat) {c : Channel} (h : c ≠ .square1) :
    (a.run n).channelOn c = a.channelOn c := by
  induction a, n using Apu.run.induct with
  | case1 a => rw [run_zero]
  | case2 a n hsome span ih =>
    rw [run_of_pos a (Nat.pos_of_ne_zero hsome), ih, segment_eq, tick_channelOn _ _ h,
      render_channelOn]

theorem step_status (a : Apu) (n : Nat) {c : Channel} (h : c ≠ .square1) :
    ((a.step n).readRegister 0xFF26).toNat.testBit c.index =
      (a.readRegister 0xFF26).toNat.testBit c.index := by
  have hkept : (a.step n).channelOn c = a.channelOn c := by
    rw [step_eq, ← a.run_channelOn n h]
    cases c <;> rfl
  have hafter := (a.step n).readPower_testBit c
  rw [hkept, ← a.readPower_testBit c] at hafter
  exact hafter

/-- From the time the power was switched on, whatever happens to the unit but a loss of power. With
`k` the steps of the sequencer that fit into the cycles stepped, there have been `(k + 1) / 2`
clocks of the lengths, `(k + 5) / 8 + (k + 1) / 8` of the sweep and `k / 8` of the envelopes: that
many more than up to any earlier time are what the controls have gone through since, if no register
was written in the meantime. A length that is enabled counts down to zero and stays there. No step
of the unit, with whatever state before, changes the status of a channel but that of the first. -/
theorem clocked_since_switched_on (a : Apu) (v : UInt8) (before quiet : List Event)
    (hoff : a.powered = false) (hon : v &&& 0x80 ≠ 0) (hbefore : ∀ e ∈ before, e.KeepsPower)
    (hquiet : ∀ e ∈ quiet, e.Quiet) :
    let b := (a.writeRegister 0xFF26 v).performAll before
    let later := b.performAll quiet
    let k₀ := totalCycles before / 8192
    let k := totalCycles (before ++ quiet) / 8192
    let lengths := (k + 1) / 2 - (k₀ + 1) / 2
    let sweeps := (k + 5) / 8 + (k + 1) / 8 - ((k₀ + 5) / 8 + (k₀ + 1) / 8)
    let envelopes := k / 8 - k₀ / 8
    Clocked lengths sweeps envelopes b later ∧
      (∀ c, (b.length c).enabled →
        later.length c = { b.length c with remaining := (b.length c).remaining - lengths }) ∧
      ∀ (a : Apu) n (c : Channel), c ≠ .square1 →
        ((a.step n).readRegister 0xFF26).toNat.testBit c.index =
          (a.readRegister 0xFF26).toNat.testBit c.index := by
  intro b later k₀ k lengths sweeps envelopes
  have hb : b.PoweredFor (totalCycles before) := by
    simpa using (poweredFor_switched_on hoff hon).performAll hbefore
  have htotal : totalCycles (before ++ quiet) = totalCycles before + totalCycles quiet := by
    simp [totalCycles]
  have hclocked : Clocked lengths sweeps envelopes b later := by
    have hover := hb.performAll_clocked hquiet
    rwa [← htotal] at hover
  refine ⟨hclocked, fun c henabled => ?_, fun a n c => a.step_status n⟩
  rw [hclocked.length, LengthCounter.iterate_clock, if_pos henabled]

theorem two_ticks_clocked :
    let before : List Event := [.step 8192, .write 0xFF16 0x3E, .write 0xFF17 0xF0,
      .write 0xFF19 0xC0]
    let quiet : List Event := [.step 20000, .drain .square2, .step 12800]
    let b := (({} : Apu).writeRegister 0xFF26 0x80).performAll before
    (∀ e ∈ before, e.KeepsPower) ∧ (∀ e ∈ quiet, e.Quiet) ∧
      Clocked 2 1 0 b (b.performAll quiet) ∧ (b.length .square2).remaining = 2 ∧
      ((b.performAll quiet).length .square2).remaining = 0 := by
  intro before quiet b
  have hbefore : ∀ e ∈ before, e.KeepsPower := by simp [before, Event.KeepsPower]
  have hquiet : ∀ e ∈ quiet, e.Quiet := by simp [quiet, Event.Quiet]
  have htotal : totalCycles before = 8192 ∧ totalCycles (before ++ quiet) = 40992 := by decide
  obtain ⟨hclocked, hlength, -⟩ := clocked_since_switched_on {} 0x80 before quiet rfl (by decide)
    hbefore hquiet
  simp only [htotal] at hclocked hlength
  have hremaining : (b.length .square2).enabled ∧ (b.length .square2).remaining = 2 := by
    decide +kernel
  refine ⟨hbefore, hquiet, hclocked, hremaining.2, ?_⟩
  rw [hlength .square2 hremaining.1, hremaining.2]

end Apu
end Handheld
