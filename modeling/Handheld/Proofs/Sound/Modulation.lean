import Handheld.Proofs.Sound.Sequencing

/-!
What the envelopes and the sweep come to. Both count clocks down to their next update and then start
again, so that there have been as many updates as the period goes into the clocks.
-/

namespace Handheld

/-- What holds at the start of a period, of no updates made and a whole period left, holds of the
updates made and the clocks left at any time, if each clock keeps it: one that only counts down and
one that updates. -/
theorem iterate_countdown {α : Type} {Holds : Nat → Nat → α → Prop} {clock : α → α} {period : Nat}
    (hperiod : 0 < period)
    (hwait : ∀ updates timer x, 1 < timer → Holds updates timer x →
      Holds updates (timer - 1) (clock x))
    (hupdate : ∀ updates timer x, timer ≤ 1 → Holds updates timer x →
      Holds (updates + 1) period (clock x))
    {start : α} (h : Holds 0 period start) (n : Nat) :
    Holds (n / period) (period - n % period) (clock^[n] start) := by
  induction n with
  | zero => simpa [Nat.div_eq_of_lt hperiod] using h
  | succ n ih =>
    rw [Function.iterate_succ_apply']
    have hwhole := Nat.mod_add_div n period
    rcases Nat.lt_or_eq_of_le (Nat.mod_lt n hperiod) with hlt | hlast
    · obtain ⟨hdiv, hmod⟩ : (n + 1) / period = n / period ∧ (n + 1) % period = n % period + 1 :=
        (Nat.div_mod_unique hperiod).mpr ⟨by omega, hlt⟩
      rw [hdiv, hmod, Nat.sub_add_eq]
      exact hwait _ _ _ (by omega) ih
    · obtain ⟨hdiv, hmod⟩ : (n + 1) / period = n / period + 1 ∧ (n + 1) % period = 0 :=
        (Nat.div_mod_unique hperiod).mpr ⟨by rw [Nat.mul_add_one]; omega, hperiod⟩
      rw [hdiv, hmod, Nat.sub_zero]
      exact hupdate _ _ _ (by omega) ih

namespace Envelope

structure Moved (start period : Nat) (up : Bool) (updates timer : Nat) (e : Envelope) : Prop where
  period : e.period = period
  rising : e.rising = up
  timer : e.timer = timer
  volume : e.volume = if up then min 15 (start + updates) else start - updates

variable {start period updates timer : Nat} {up : Bool} {e : Envelope}

theorem Moved.wait (h : e.Moved start period up updates timer) (hperiod : 0 < period)
    (htimer : 1 < timer) : e.clock.Moved start period up updates (timer - 1) := by
  obtain ⟨rfl, rfl, rfl, hvolume⟩ := h
  have hclock : e.clock = { e with timer := e.timer - 1 } := by
    simp [clock, Nat.ne_of_gt hperiod, Nat.not_le.mpr htimer]
  rw [hclock]
  exact ⟨rfl, rfl, rfl, hvolume⟩

theorem Moved.update (h : e.Moved start period up updates timer) (hperiod : 0 < period)
    (htimer : timer ≤ 1) : e.clock.Moved start period up (updates + 1) period := by
  obtain ⟨rfl, rfl, rfl, hvolume⟩ := h
  have hclock : e.clock = { e with timer := e.period, volume := e.stepVolume } := by
    simp [clock, Nat.ne_of_gt hperiod, htimer]
  rw [hclock]
  refine ⟨rfl, rfl, rfl, ?_⟩
  simp only [stepVolume, hvolume]
  split <;> omega

theorem Moved.iterate_clock (h : e.Moved start period up 0 period) (hperiod : 0 < period)
    (n : Nat) : (clock^[n] e).Moved start period up (n / period) (period - n % period) :=
  iterate_countdown hperiod (fun _ _ _ htimer h => h.wait hperiod htimer)
    (fun _ _ _ htimer h => h.update hperiod htimer) h n

theorem iterate_clock_of_held (h : e.period = 0) (n : Nat) : clock^[n] e = e := by
  have hclock : e.clock = e := by simp [clock, h]
  exact Function.iterate_fixed hclock n

/-- What a byte of an envelope's register makes of the volume in a number of clocks. -/
def volumeAfter (v : UInt8) (n : Nat) : Nat :=
  let start := v.toNat / 16
  let period := v.toNat % 8
  if period = 0 then start
  else if v &&& 0x08 ≠ 0 then min 15 (start + n / period)
  else start - n / period

theorem iterate_clock_volume (e : Envelope) (v : UInt8) (n : Nat) :
    (clock^[n] (e.write v).trigger).volume = volumeAfter v n := by
  have hstart : v.toNat / 16 ≤ 15 := by
    have := v.toNat_lt
    omega
  unfold volumeAfter
  dsimp only
  split
  case isTrue hzero =>
    rw [iterate_clock_of_held (show (e.write v).trigger.period = 0 from hzero)]
    rfl
  case isFalse hperiod =>
    have hmoved : (e.write v).trigger.Moved (v.toNat / 16) (v.toNat % 8) (v &&& 0x08 != 0) 0
        (v.toNat % 8) := ⟨rfl, rfl, rfl, by simp [trigger, write, hstart]⟩
    simpa using (hmoved.iterate_clock (Nat.pos_of_ne_zero hperiod) n).volume

end Envelope

namespace Sweep

def follow (s : Sweep) (f : Nat) : Nat := next { s with shadow := f }

def fits (s : Sweep) (f : Nat) : Prop := s.follow f ≤ frequencyLimit

instance (s : Sweep) (f : Nat) : Decidable (s.fits f) := inferInstanceAs (Decidable (_ ≤ _))

theorem follow_up {s : Sweep} (h : s.negate = false) : s.follow = fun f => f + f >>> s.shift := by
  funext f
  simp [follow, next, h]

theorem follow_down {s : Sweep} (h : s.negate) : s.follow = fun f => f - f >>> s.shift := by
  funext f
  simp [follow, next, h]

theorem fits_of_falling {s : Sweep} (h : s.negate) {f₀ : Nat} (hf₀ : f₀ ≤ frequencyLimit)
    (j : Nat) : s.fits (s.follow^[j] f₀) := by
  have hle : ∀ f, s.follow f ≤ f := by simp [follow_down h]
  have hfalls : s.follow^[j] f₀ ≤ f₀ := by
    induction j with
    | zero => exact Nat.le_refl _
    | succ j ih =>
      rw [Function.iterate_succ_apply']
      exact (hle _).trans ih
  exact (hle _).trans (hfalls.trans hf₀)

theorem overflows_eq {s : Sweep} {f timer : Nat} {enabled : Bool} :
    overflows { s with shadow := f, timer, enabled } = !decide (s.fits f) := by
  have hnext : next { s with shadow := f, timer, enabled } = s.follow f := rfl
  rw [overflows, hnext, ← decide_not]
  exact decide_eq_decide.mpr (Nat.not_le.symm)

theorem clock_of_overflows {s : Sweep} (h : s.enabled → s.overflows) :
    (s.clock.2 = .unchanged ∨ s.clock.2 = .stopped) ∧
      (s.clock.1.enabled → s.clock.1.overflows) := by
  unfold clock
  split
  case isTrue => exact ⟨.inl rfl, h⟩
  case isFalse hon =>
    split
    · exact ⟨.inl rfl, h⟩
    · have hover : overflows { s with timer := s.period } := h (by simp_all)
      simp [update, hover]

/-- What the updates of the sweep make of a frequency and of the status of its channel. -/
structure Reaches (s : Sweep) (f₀ updates frequency : Nat) (on : Bool) : Prop where
  limited : s.negate = false → ∀ J,
    let up := fun f => f + f >>> s.shift
    IsLeast {j | 2047 < up (up^[j] f₀)} J → frequency = up^[min updates J] f₀ ∧ (on ↔ updates < J)
  unlimited : s.negate = false →
    let up := fun f => f + f >>> s.shift
    (∀ j, up (up^[j] f₀) ≤ 2047) → frequency = up^[updates] f₀ ∧ on
  falling : s.negate →
    let down := fun f => f - f >>> s.shift
    frequency = down^[updates] f₀ ∧ on

end Sweep

namespace SquareChannel

structure Tuned (s : Sweep) (f timer : Nat) (c : SquareChannel) : Prop where
  sweep : c.sweep = some { s with shadow := f, timer, enabled := true }
  frequency : c.frequency = f
  enabled : c.enabled

/-- Of a channel that is off and whose sweep, if it still runs, can only switch it off again. -/
structure Stopped (f : Nat) (c : SquareChannel) : Prop where
  frequency : c.frequency = f
  enabled : c.enabled = false
  sweep : ∀ s ∈ c.sweep, s.enabled → s.overflows

variable {s : Sweep} {f timer : Nat} {c : SquareChannel}

theorem Tuned.wait (h : c.Tuned s f timer) (hperiod : 0 < s.period) (htimer : 1 < timer) :
    c.clockSweep.Tuned s f (timer - 1) := by
  obtain ⟨hsweep, hfrequency, henabled⟩ := h
  have hclock : c.clockSweep =
      { c with sweep := some { s with shadow := f, timer := timer - 1, enabled := true } } := by
    simp [clockSweep, hsweep, Sweep.clock, Nat.ne_of_gt hperiod, htimer]
  rw [hclock]
  exact ⟨rfl, hfrequency, henabled⟩

theorem Tuned.update (h : c.Tuned s f timer) (hperiod : 0 < s.period) (hshift : 0 < s.shift)
    (htimer : timer ≤ 1) (hfits : s.fits f) :
    (s.fits (s.follow f) → c.clockSweep.Tuned s (s.follow f) s.period) ∧
      (¬ s.fits (s.follow f) → c.clockSweep.Stopped (s.follow f)) := by
  obtain ⟨hsweep, hfrequency, henabled⟩ := h
  have hnext : ∀ timer enabled, Sweep.next { s with shadow := f, timer, enabled } = s.follow f :=
    fun _ _ => rfl
  constructor
  · intro hagain
    have hclock : c.clockSweep = { c with
        sweep := some { s with shadow := s.follow f, timer := s.period, enabled := true }
        frequency := s.follow f } := by
      simp [clockSweep, hsweep, Sweep.clock, Sweep.update, Nat.ne_of_gt hperiod,
        Nat.ne_of_gt hshift, Nat.not_lt.mpr htimer, Sweep.overflows_eq, hnext, hfits, hagain]
    rw [hclock]
    exact ⟨rfl, rfl, henabled⟩
  · intro hagain
    have hclock : c.clockSweep = { c with
        sweep := some { s with shadow := s.follow f, timer := s.period, enabled := false }
        frequency := s.follow f
        enabled := false } := by
      simp [clockSweep, hsweep, Sweep.clock, Sweep.update, Nat.ne_of_gt hperiod,
        Nat.ne_of_gt hshift, Nat.not_lt.mpr htimer, Sweep.overflows_eq, hnext, hfits, hagain]
    rw [hclock]
    exact ⟨rfl, rfl, by simp⟩

theorem Stopped.clockSweep (h : c.Stopped f) : c.clockSweep.Stopped f := by
  obtain ⟨hfrequency, henabled, hsweep⟩ := h
  unfold SquareChannel.clockSweep
  split
  case h_1 => exact ⟨hfrequency, henabled, hsweep⟩
  case h_2 s hs =>
    obtain ⟨houtcome, hover⟩ := Sweep.clock_of_overflows (hsweep s hs)
    dsimp only
    rcases houtcome with hsame | hstopped
    · rw [hsame]
      exact ⟨hfrequency, henabled, by simpa using hover⟩
    · rw [hstopped]
      exact ⟨hfrequency, rfl, by simpa using hover⟩

/-- Of a channel triggered at a frequency, after some updates of its sweep. -/
structure SweptFrom (s : Sweep) (f₀ updates timer : Nat) (c : SquareChannel) : Prop where
  tuned : (∀ j ≤ updates, s.fits (s.follow^[j] f₀)) → c.Tuned s (s.follow^[updates] f₀) timer
  stopped : ∀ j ≤ updates, IsLeast {j | ¬ s.fits (s.follow^[j] f₀)} j → c.Stopped (s.follow^[j] f₀)

variable {f₀ updates : Nat}

theorem SweptFrom.wait (h : c.SweptFrom s f₀ updates timer) (hperiod : 0 < s.period)
    (htimer : 1 < timer) : c.clockSweep.SweptFrom s f₀ updates (timer - 1) where
  tuned hfits := (h.tuned hfits).wait hperiod htimer
  stopped j hj hleast := (h.stopped j hj hleast).clockSweep

theorem fits_of_lt_least {j : Nat} (h : IsLeast {j | ¬ s.fits (s.follow^[j] f₀)} j) :
    ∀ i < j, s.fits (s.follow^[i] f₀) := fun i hi => by
  by_contra hover
  exact Nat.not_le.mpr hi (h.2 hover)

theorem SweptFrom.update (h : c.SweptFrom s f₀ updates timer) (hperiod : 0 < s.period)
    (hshift : 0 < s.shift) (htimer : timer ≤ 1) :
    c.clockSweep.SweptFrom s f₀ (updates + 1) s.period where
  tuned hfits := by
    have hbefore : ∀ j ≤ updates, s.fits (s.follow^[j] f₀) := fun j hj => hfits j (by omega)
    have hagain := hfits (updates + 1) (Nat.le_refl _)
    rw [Function.iterate_succ_apply'] at hagain ⊢
    exact ((h.tuned hbefore).update hperiod hshift htimer (hbefore _ (Nat.le_refl _))).1 hagain
  stopped j hj hleast := by
    rcases Nat.lt_or_eq_of_le hj with hlt | rfl
    · exact (h.stopped j (by omega) hleast).clockSweep
    · have hbefore : ∀ j ≤ updates, s.fits (s.follow^[j] f₀) :=
        fun j hj => fits_of_lt_least hleast j (by omega)
      have hagain := hleast.1
      simp only [Set.mem_ofPred_eq, Function.iterate_succ_apply'] at hagain ⊢
      exact ((h.tuned hbefore).update hperiod hshift htimer (hbefore _ (Nat.le_refl _))).2 hagain

theorem SweptFrom.iterate_clockSweep (h : c.SweptFrom s f₀ 0 s.period) (hperiod : 0 < s.period)
    (hshift : 0 < s.shift) (n : Nat) :
    (SquareChannel.clockSweep^[n] c).SweptFrom s f₀ (n / s.period) (s.period - n % s.period) :=
  iterate_countdown hperiod (fun _ _ _ htimer h => h.wait hperiod htimer)
    (fun _ _ _ htimer h => h.update hperiod hshift htimer) h n

theorem writeFrequencyHigh_sweptFrom {v : UInt8} (hsweep : c.sweep = some s)
    (hperiod : 0 < s.period) (hshift : 0 < s.shift) (hdac : c.envelope.dacEnabled)
    (htrigger : v &&& 0x80 ≠ 0) :
    (c.writeFrequencyHigh v).SweptFrom s (withFrequencyHigh c.frequency v) 0 s.period := by
  have hreload : ∀ f, s.reload f = { s with shadow := f, timer := s.period, enabled := true } := by
    simp [Sweep.reload, Nat.ne_of_gt hperiod]
  constructor
  · intro hfits
    have hfirst : s.fits (withFrequencyHigh c.frequency v) := hfits 0 (Nat.le_refl _)
    constructor <;>
      simp [writeFrequencyHigh, htrigger, trigger, hsweep, hreload, hdac, Sweep.overflows_eq,
        hfirst]
  · intro j hj hleast
    obtain rfl : j = 0 := by omega
    have hover : ¬ s.fits (withFrequencyHigh c.frequency v) := hleast.1
    constructor <;>
      simp [writeFrequencyHigh, htrigger, trigger, hsweep, hreload, hdac, Sweep.overflows_eq,
        hover, Nat.ne_of_gt hshift]

theorem SweptFrom.reaches (h : c.SweptFrom s f₀ updates timer) (hf₀ : f₀ ≤ frequencyLimit) :
    s.Reaches f₀ updates c.frequency c.enabled := by
  constructor
  · intro hup J up hleast
    have hfollow : s.follow = up := Sweep.follow_up hup
    have hleast' : IsLeast {j | ¬ s.fits (s.follow^[j] f₀)} J := by
      simpa [Sweep.fits, hfollow, frequencyLimit] using hleast
    rw [← hfollow]
    rcases Nat.lt_or_ge updates J with hlt | hge
    · have htuned := h.tuned fun j hj => fits_of_lt_least hleast' j (by omega)
      rw [Nat.min_eq_left (by omega)]
      exact ⟨htuned.frequency, by simp [htuned.enabled, hlt]⟩
    · have hstopped := h.stopped J hge hleast'
      rw [Nat.min_eq_right hge]
      exact ⟨hstopped.frequency, by simp [hstopped.enabled, hge]⟩
  · intro hup up hfits
    have hfollow : s.follow = up := Sweep.follow_up hup
    have htuned := h.tuned fun j _ => by
      rw [Sweep.fits, hfollow]
      exact hfits j
    rw [← hfollow]
    exact ⟨htuned.frequency, htuned.enabled⟩
  · intro hdown down
    have hfollow : s.follow = down := Sweep.follow_down hdown
    have htuned := h.tuned fun j _ => Sweep.fits_of_falling hdown hf₀ j
    rw [← hfollow]
    exact ⟨htuned.frequency, htuned.enabled⟩

end SquareChannel

namespace Apu

variable {a : Apu}

theorem writeRegister_envelope? (hpower : a.powered) {address : UInt16} {c : Channel}
    (h : (address, c) ∈ [(0xFF12, Channel.square1), (0xFF17, .square2), (0xFF21, .noise)])
    (v : UInt8) :
    (a.writeRegister address v).envelope? c = (a.envelope? c).map fun e => (e.write v).trigger := by
  simp only [List.mem_cons, List.not_mem_nil, or_false, Prod.mk.injEq] at h
  obtain ⟨rfl, rfl⟩ | ⟨rfl, rfl⟩ | ⟨rfl, rfl⟩ := h <;>
    simp [writeRegister, hpower, writeChannel, envelope?, SquareChannel.writeEnvelope,
      NoiseChannel.writeEnvelope]

/-- An envelope that is written and triggered, after any number of clocks. A write to its register
triggers it, and a span without writes clocks it as often as the sequencer says. -/
theorem written_volume (v : UInt8) :
    (∀ (e : Envelope) n,
      (Envelope.clock^[n] (e.write v).trigger).volume = Envelope.volumeAfter v n) ∧
      ∀ (a : Apu) cycles quiet address (c : Channel), a.PoweredFor cycles →
        (∀ e ∈ quiet, Event.Quiet e) →
        (address, c) ∈ [(0xFF12, Channel.square1), (0xFF17, .square2), (0xFF21, .noise)] →
        let later := (a.writeRegister address v).performAll quiet
        let n := Sequencer.envelopeClocks ((cycles + totalCycles quiet) / 8192) -
          Sequencer.envelopeClocks (cycles / 8192)
        (later.envelope? c).map Envelope.volume = some (Envelope.volumeAfter v n) := by
  refine ⟨fun e n => e.iterate_clock_volume v n, fun a cycles quiet address c ha hquiet hc => ?_⟩
  intro later n
  have hstart : (a.writeRegister address v).PoweredFor cycles :=
    ha.writeRegister fun haddress => by simp [haddress] at hc
  have hclocked := (hstart.performAll_clocked hquiet).envelope c
  obtain ⟨e, he⟩ : ∃ e, a.envelope? c = some e := by
    cases c <;> simp [envelope?] at hc ⊢
  rw [hclocked, writeRegister_envelope? ha.powered hc v, he]
  exact congrArg some (e.iterate_clock_volume v n)

/-- A volume of 5 that rises every second clock is 7 after four clocks, for which 36 steps of the
sequencer are enough. -/
theorem volume_after_four_clocks :
    let a := ({} : Apu).writeRegister 0xFF26 0x80
    let quiet : List Event := [.step 100000, .step 200000]
    a.PoweredFor 0 ∧ (∀ e ∈ quiet, e.Quiet) ∧
      (((a.writeRegister 0xFF17 0x5A).performAll quiet).envelope? .square2).map Envelope.volume =
        some 7 := by
  intro a quiet
  have ha : a.PoweredFor 0 := poweredFor_switched_on rfl (by decide)
  have hquiet : ∀ e ∈ quiet, e.Quiet := by simp [quiet, Event.Quiet]
  have hvolume := (written_volume 0x5A).2 a 0 quiet 0xFF17 .square2 ha hquiet (by simp)
  exact ⟨ha, hquiet, hvolume.trans (by decide)⟩

theorem writeRegister_square1 (hpower : a.powered) (v : UInt8) :
    (a.writeRegister 0xFF14 v).square1 = a.square1.writeFrequencyHigh v := by
  simp [writeRegister, hpower, writeChannel]

/-- The first channel, triggered with a sweep and with its converter on, after any number of clocks
of the sweep, and after any span without writes. There have been as many updates as the period goes
into the clocks. Upwards the last one is to the last frequency within the limit, with which the
channel goes off, at once if it was triggered there; downwards nothing stops them. -/
theorem triggered_frequency (a : Apu) (s : Sweep) (v : UInt8) (hpower : a.powered)
    (hsweep : a.square1.sweep = some s) (hperiod : 0 < s.period) (hshift : 0 < s.shift)
    (hdac : a.converterOn .square1) (htrigger : v &&& 0x80 ≠ 0) :
    let start := a.writeRegister 0xFF14 v
    let f₀ := withFrequencyHigh a.square1.frequency v
    (∀ n,
      let c := SquareChannel.clockSweep^[n] start.square1
      s.Reaches f₀ (n / s.period) c.frequency c.enabled) ∧
    ∀ cycles quiet, a.PoweredFor cycles → (∀ e ∈ quiet, Event.Quiet e) →
      let later := start.performAll quiet
      let n := Sequencer.sweepClocks ((cycles + totalCycles quiet) / 8192) -
        Sequencer.sweepClocks (cycles / 8192)
      s.Reaches f₀ (n / s.period) later.square1.frequency
        ((later.readRegister 0xFF26).toNat.testBit Channel.square1.index) := by
  intro start f₀
  have hreaches : ∀ n,
      let c := SquareChannel.clockSweep^[n] start.square1
      s.Reaches f₀ (n / s.period) c.frequency c.enabled := by
    intro n c
    have hstart : start.square1.SweptFrom s f₀ 0 s.period := by
      rw [writeRegister_square1 hpower]
      exact SquareChannel.writeFrequencyHigh_sweptFrom hsweep hperiod hshift hdac htrigger
    exact (hstart.iterate_clockSweep hperiod hshift n).reaches (withFrequencyHigh_le _ v)
  refine ⟨hreaches, fun cycles quiet ha hquiet => ?_⟩
  intro later n
  have hstart : start.PoweredFor cycles := ha.writeRegister (by simp)
  have hclocked := (hstart.performAll_clocked hquiet).sweep
  simp only [SquareChannel.tuning, Prod.mk.injEq] at hclocked
  obtain ⟨-, hfrequency, henabled⟩ := hclocked
  have hstatus : (later.readRegister 0xFF26).toNat.testBit Channel.square1.index =
      later.square1.enabled := later.readPower_testBit .square1
  rw [hstatus, hfrequency, henabled]
  exact hreaches n

/-- From 1000 half as much again is 1500, and from there it would be 2250. The first clock of the
sweep, in the third step of the sequencer, brings the frequency to 1500 and switches the channel
off. -/
theorem stopped_at_fifteen_hundred :
    let settings : List Event := [.write 0xFF10 0x11, .write 0xFF12 0xF0, .write 0xFF13 0xE8]
    let a := (({} : Apu).writeRegister 0xFF26 0x80).performAll settings
    let quiet : List Event := [.step 20000, .step 4576]
    let later := (a.writeRegister 0xFF14 0x83).performAll quiet
    a.PoweredFor 0 ∧ a.square1.sweep = some { period := 1, shift := 1 } ∧
      a.converterOn .square1 ∧ (∀ e ∈ quiet, e.Quiet) ∧ later.square1.frequency = 1500 ∧
      (later.readRegister 0xFF26).toNat.testBit Channel.square1.index = false := by
  intro settings a quiet later
  have hon : (({} : Apu).writeRegister 0xFF26 0x80).PoweredFor 0 :=
    poweredFor_switched_on rfl (by decide)
  have hsettings : ∀ e ∈ settings, e.KeepsPower := by simp [settings, Event.KeepsPower]
  have ha : a.PoweredFor 0 := hon.performAll hsettings
  have hsweep : a.square1.sweep = some { period := 1, shift := 1 } := by decide +kernel
  have hdac : a.converterOn .square1 := by decide +kernel
  have hquiet : ∀ e ∈ quiet, e.Quiet := by simp [quiet, Event.Quiet]
  have hreaches := (triggered_frequency a { period := 1, shift := 1 } 0x83 ha.powered hsweep
    (by decide) (by decide) hdac (by decide)).2 0 quiet ha hquiet
  have hlow : a.square1.frequency = 0xE8 := by decide +kernel
  have hleast :
      IsLeast {j | 2047 < (fun f => f + f >>> 1) ((fun f => f + f >>> 1)^[j] 1000)} 1 := by
    refine ⟨by decide, fun j hj => ?_⟩
    by_contra hzero
    obtain rfl : j = 0 := by omega
    exact absurd hj (by decide)
  rw [hlow] at hreaches
  obtain ⟨hfrequency, hstatus⟩ := hreaches.limited rfl 1 hleast
  exact ⟨ha, hsweep, hdac, hquiet, hfrequency.trans (by decide),
    Bool.eq_false_iff.mpr (mt hstatus.mp (by decide))⟩

end Apu
end Handheld
