import Handheld.Proofs.Sound.Delivery

/-!
The ranges that the sound unit keeps to, whatever is written to it and however long it is stepped: a
channel that is on has its converter and the power on, no frequency is past its register, and the
sequencer is never further than a period from its next step.
-/

namespace Handheld

theorem withFrequencyLow_le (frequency : Nat) (v : UInt8) :
    withFrequencyLow frequency v ≤ frequencyLimit := by
  have hhigh : frequency &&& 0x0700 < 2 ^ 11 := Nat.and_lt_two_pow _ (by decide)
  have hlow : v.toNat < 2 ^ 11 := Nat.lt_trans v.toNat_lt (by decide)
  exact Nat.le_of_lt_succ (Nat.or_lt_two_pow hhigh hlow)

theorem withFrequencyHigh_le (frequency : Nat) (v : UInt8) :
    withFrequencyHigh frequency v ≤ frequencyLimit := by
  have hlow : frequency &&& 0x00FF < 2 ^ 11 := Nat.and_lt_two_pow _ (by decide)
  have hhigh : (v.toNat % 8) <<< 8 < 2 ^ 11 := by
    rw [Nat.shiftLeft_eq]
    omega
  exact Nat.le_of_lt_succ (Nat.or_lt_two_pow hlow hhigh)

namespace LengthCounter

structure InRange (limit : Nat) (c : LengthCounter) : Prop where
  max : c.max = limit
  remaining : c.remaining ≤ limit

variable {limit : Nat} {c : LengthCounter}

theorem full_inRange (limit : Nat) : (full limit).InRange limit := ⟨rfl, Nat.le_refl _⟩

theorem InRange.load (h : c.InRange limit) (value : Nat) : (c.load value).InRange limit :=
  ⟨h.max, h.max ▸ Nat.sub_le ..⟩

theorem InRange.trigger (h : c.InRange limit) : c.trigger.InRange limit := by
  unfold LengthCounter.trigger
  split
  · exact ⟨h.max, Nat.le_of_eq h.max⟩
  · exact h

theorem InRange.clock (h : c.InRange limit) : c.clock.InRange limit := by
  unfold LengthCounter.clock
  split
  · exact ⟨h.max, Nat.le_trans (Nat.sub_le ..) h.remaining⟩
  · exact h

theorem InRange.enable (h : c.InRange limit) (on : Bool) :
    ({ c with enabled := on } : LengthCounter).InRange limit := ⟨h.max, h.remaining⟩

end LengthCounter

namespace Envelope

structure InRange (e : Envelope) : Prop where
  initial : e.initial ≤ 15
  volume : e.volume ≤ 15

theorem new_inRange : ({} : Envelope).InRange := ⟨by decide, by decide⟩

theorem InRange.trigger {e : Envelope} (h : e.InRange) : e.trigger.InRange :=
  ⟨h.initial, h.initial⟩

theorem write_inRange (e : Envelope) (v : UInt8) : (e.write v).trigger.InRange := by
  have hinitial : v.toNat / 16 ≤ 15 := by
    have := v.toNat_lt
    omega
  exact ⟨hinitial, hinitial⟩

theorem stepVolume_le {e : Envelope} (h : e.InRange) : e.stepVolume ≤ 15 := by
  unfold stepVolume
  split
  · exact Nat.min_le_left ..
  · exact Nat.le_trans (Nat.sub_le ..) h.volume

theorem InRange.clock {e : Envelope} (h : e.InRange) : e.clock.InRange := by
  unfold Envelope.clock
  split
  · exact h
  split
  · exact ⟨h.initial, stepVolume_le h⟩
  · exact ⟨h.initial, h.volume⟩

@[simp] theorem clock_dacEnabled (e : Envelope) : e.clock.dacEnabled = e.dacEnabled := by
  unfold Envelope.clock
  split
  · rfl
  split <;> rfl

@[simp] theorem trigger_dacEnabled (e : Envelope) : e.trigger.dacEnabled = e.dacEnabled := rfl

end Envelope

namespace Sweep

theorem update_inRange {s : Sweep} (h : s.shadow ≤ frequencyLimit) :
    s.update.1.shadow ≤ frequencyLimit ∧ ∀ frequency,
      s.update.2 = .retuned frequency ∨ s.update.2 = .retunedAndStopped frequency →
        frequency ≤ frequencyLimit := by
  unfold update
  dsimp only
  split
  case isTrue => exact ⟨h, by simp⟩
  case isFalse hfits =>
    have hnext : next { s with timer := s.period } ≤ frequencyLimit := by
      simpa [overflows] using hfits
    split
    · exact ⟨h, by simp⟩
    split
    · exact ⟨hnext, by simpa using hnext⟩
    · exact ⟨hnext, by simpa using hnext⟩

theorem clock_inRange {s : Sweep} (h : s.shadow ≤ frequencyLimit) :
    s.clock.1.shadow ≤ frequencyLimit ∧ ∀ frequency,
      s.clock.2 = .retuned frequency ∨ s.clock.2 = .retunedAndStopped frequency →
        frequency ≤ frequencyLimit := by
  unfold clock
  split
  · exact ⟨h, by simp⟩
  split
  · exact ⟨h, by simp⟩
  · exact update_inRange h

end Sweep

namespace SquareChannel

structure InRange (c : SquareChannel) : Prop where
  frequency : c.frequency ≤ frequencyLimit
  shadow : ∀ s ∈ c.sweep, s.shadow ≤ frequencyLimit
  envelope : c.envelope.InRange
  length : c.length.InRange 64
  dac : c.enabled → c.envelope.dacEnabled

variable {c : SquareChannel}

theorem create_inRange (withSweep : Bool) : (create withSweep).InRange where
  frequency := by simp [create]
  shadow := by cases withSweep <;> simp [create]
  envelope := Envelope.new_inRange
  length := LengthCounter.full_inRange 64
  dac := by simp [create]

theorem InRange.writeSweep (h : c.InRange) (v : UInt8) : (c.writeSweep v).InRange := by
  refine ⟨h.frequency, fun s hs => ?_, h.envelope, h.length, h.dac⟩
  obtain ⟨s', hs', rfl⟩ := Option.map_eq_some_iff.mp hs
  exact h.shadow s' hs'

theorem InRange.writeDutyLength (h : c.InRange) (v : UInt8) : (c.writeDutyLength v).InRange :=
  ⟨h.frequency, h.shadow, h.envelope, h.length.load _, h.dac⟩

theorem InRange.writeEnvelope (h : c.InRange) (v : UInt8) : (c.writeEnvelope v).InRange :=
  ⟨h.frequency, h.shadow, c.envelope.write_inRange v, h.length, by simp [SquareChannel.writeEnvelope]⟩

theorem InRange.writeFrequencyLow (h : c.InRange) (v : UInt8) : (c.writeFrequencyLow v).InRange :=
  ⟨withFrequencyLow_le _ v, h.shadow, h.envelope, h.length, h.dac⟩

theorem InRange.trigger (h : c.InRange) : c.trigger.InRange := by
  refine ⟨h.frequency, fun s hs => ?_, h.envelope.trigger, h.length.trigger,
     by simp +contextual [SquareChannel.trigger]⟩
  obtain ⟨s', -, rfl⟩ := Option.map_eq_some_iff.mp hs
  exact h.frequency

theorem InRange.writeFrequencyHigh (h : c.InRange) (v : UInt8) :
    (c.writeFrequencyHigh v).InRange := by
  unfold SquareChannel.writeFrequencyHigh
  have htuned : ({ c with
      frequency := withFrequencyHigh c.frequency v
      length := { c.length with enabled := v &&& 0x40 != 0 } } : SquareChannel).InRange :=
    ⟨withFrequencyHigh_le _ v, h.shadow, h.envelope, h.length.enable _, h.dac⟩
  dsimp only
  split
  · exact htuned.trigger
  · exact htuned

theorem InRange.clockSweep (h : c.InRange) : c.clockSweep.InRange := by
  unfold SquareChannel.clockSweep
  split
  · exact h
  case h_2 s hs =>
    obtain ⟨hshadow, hfrequency⟩ := Sweep.clock_inRange (h.shadow s hs)
    rcases hclock : s.clock with ⟨s', outcome⟩
    rw [hclock] at hshadow hfrequency
    have hshadow' : ∀ s'' ∈ some s', s''.shadow ≤ frequencyLimit := by simpa using hshadow
    cases outcome with
    | unchanged => exact ⟨h.frequency, hshadow', h.envelope, h.length, h.dac⟩
    | retuned f => exact ⟨hfrequency f (by simp), hshadow', h.envelope, h.length, h.dac⟩
    | stopped => exact ⟨h.frequency, hshadow', h.envelope, h.length, by simp⟩
    | retunedAndStopped f =>
      exact ⟨hfrequency f (by simp), hshadow', h.envelope, h.length, by simp⟩

theorem InRange.clockLength (h : c.InRange) : c.clockLength.InRange :=
  ⟨h.frequency, h.shadow, h.envelope, h.length.clock, h.dac⟩

theorem InRange.clockEnvelope (h : c.InRange) : c.clockEnvelope.InRange :=
  ⟨h.frequency, h.shadow, h.envelope.clock, h.length, by
    simpa [SquareChannel.clockEnvelope] using h.dac⟩

theorem InRange.nextLevel (h : c.InRange) (rate : Float) : (c.nextLevel rate).2.InRange :=
  ⟨h.frequency, h.shadow, h.envelope, h.length, h.dac⟩

end SquareChannel

namespace WaveChannel

structure InRange (c : WaveChannel) : Prop where
  frequency : c.frequency ≤ frequencyLimit
  length : c.length.InRange 256
  dac : c.enabled → c.dacEnabled

variable {c : WaveChannel}

theorem powerOff_inRange (c : WaveChannel) : c.powerOff.InRange :=
  ⟨by simp [powerOff], LengthCounter.full_inRange 256, by simp [powerOff]⟩

theorem InRange.writeTable (h : c.InRange) (i : Nat) (v : UInt8) : (c.writeTable i v).InRange :=
  ⟨h.frequency, h.length, h.dac⟩

theorem InRange.writeDac (h : c.InRange) (v : UInt8) : (c.writeDac v).InRange :=
  ⟨h.frequency, h.length, by simp [WaveChannel.writeDac]⟩

theorem InRange.writeLength (h : c.InRange) (v : UInt8) : (c.writeLength v).InRange :=
  ⟨h.frequency, h.length.load _, h.dac⟩

theorem InRange.writeVolume (h : c.InRange) (v : UInt8) : (c.writeVolume v).InRange :=
  ⟨h.frequency, h.length, h.dac⟩

theorem InRange.writeFrequencyLow (h : c.InRange) (v : UInt8) : (c.writeFrequencyLow v).InRange :=
  ⟨withFrequencyLow_le _ v, h.length, h.dac⟩

theorem InRange.writeFrequencyHigh (h : c.InRange) (v : UInt8) :
    (c.writeFrequencyHigh v).InRange := by
  unfold WaveChannel.writeFrequencyHigh
  have hlength := h.length.enable (v &&& 0x40 != 0)
  dsimp only
  split
  · exact ⟨withFrequencyHigh_le _ v, hlength.trigger, id⟩
  · exact ⟨withFrequencyHigh_le _ v, hlength, h.dac⟩

theorem InRange.clockLength (h : c.InRange) : c.clockLength.InRange :=
  ⟨h.frequency, h.length.clock, h.dac⟩

theorem InRange.nextLevel (h : c.InRange) (rate : Float) : (c.nextLevel rate).2.InRange :=
  ⟨h.frequency, h.length, h.dac⟩

end WaveChannel

namespace NoiseChannel

structure InRange (c : NoiseChannel) : Prop where
  envelope : c.envelope.InRange
  length : c.length.InRange 64
  dac : c.enabled → c.envelope.dacEnabled

variable {c : NoiseChannel}

theorem new_inRange : ({} : NoiseChannel).InRange :=
  ⟨Envelope.new_inRange, LengthCounter.full_inRange 64, by simp⟩

theorem InRange.writeLength (h : c.InRange) (v : UInt8) : (c.writeLength v).InRange :=
  ⟨h.envelope, h.length.load _, h.dac⟩

theorem InRange.writeEnvelope (h : c.InRange) (v : UInt8) : (c.writeEnvelope v).InRange :=
  ⟨c.envelope.write_inRange v, h.length, by simp [NoiseChannel.writeEnvelope]⟩

theorem InRange.writePolynomial (h : c.InRange) (v : UInt8) : (c.writePolynomial v).InRange :=
  ⟨h.envelope, h.length, h.dac⟩

theorem InRange.writeControl (h : c.InRange) (v : UInt8) : (c.writeControl v).InRange := by
  unfold NoiseChannel.writeControl
  have hlength := h.length.enable (v &&& 0x40 != 0)
  dsimp only
  split
  · exact ⟨h.envelope.trigger, hlength.trigger, id⟩
  · exact ⟨h.envelope, hlength, h.dac⟩

theorem InRange.clockLength (h : c.InRange) : c.clockLength.InRange :=
  ⟨h.envelope, h.length.clock, h.dac⟩

theorem InRange.clockEnvelope (h : c.InRange) : c.clockEnvelope.InRange :=
  ⟨h.envelope.clock, h.length, by simpa [NoiseChannel.clockEnvelope] using h.dac⟩

theorem InRange.nextLevel (h : c.InRange) (rate : Float) : (c.nextLevel rate).2.InRange := by
  have hadvance : (c.advance rate).InRange := by
    unfold advance
    split
    · exact ⟨h.envelope, h.length, h.dac⟩
    · exact h
  exact hadvance

end NoiseChannel

theorem ChannelOutput.render_voice {α : Type} {P : α → Prop} {next : Float → α → Float32 × α}
    (hnext : ∀ rate voice, P voice → P (next rate voice).2) (o : ChannelOutput) {voice : α}
    (h : P voice) (cycles : Nat) (mix : Mix) : P (o.render next voice cycles mix).1 := by
  have hframes : ∀ rate n voice scratch, P voice →
      P (renderFrames (next rate) mix n voice scratch).1 := by
    intro rate n
    induction n with
    | zero => exact fun _ _ h => h
    | succ n ih => exact fun voice _ h => ih _ _ (hnext rate voice h)
  unfold render
  split
  · exact h
  · exact hframes _ _ _ _ h

theorem ChannelOutput.render_kept {α β : Type} {next : Float → α → Float32 × α} (f : α → β)
    (hnext : ∀ rate voice, f (next rate voice).2 = f voice) (o : ChannelOutput) (voice : α)
    (cycles : Nat) (mix : Mix) : f (o.render next voice cycles mix).1 = f voice :=
  o.render_voice (P := fun voice' => f voice' = f voice)
    (fun rate voice' h => (hnext rate voice').trans h) rfl cycles mix

namespace Apu

def channelOn (a : Apu) : Channel → Bool
  | .square1 => a.square1.enabled
  | .square2 => a.square2.enabled
  | .wave => a.wave.enabled
  | .noise => a.noise.enabled

def converterOn (a : Apu) : Channel → Bool
  | .square1 => a.square1.envelope.dacEnabled
  | .square2 => a.square2.envelope.dacEnabled
  | .wave => a.wave.dacEnabled
  | .noise => a.noise.envelope.dacEnabled

theorem status_bits (a : Apu) :
    a.status &&& 0xF0 = 0 ∧ ∀ c, a.status.toNat.testBit c.index = a.channelOn c := by
  have hbits : ∀ on1 on2 on3 on4 : Bool,
      let status := on1.toUInt8 ||| on2.toUInt8 <<< 1 ||| on3.toUInt8 <<< 2 ||| on4.toUInt8 <<< 3
      status &&& 0xF0 = 0 ∧ status.toNat.testBit 0 = on1 ∧ status.toNat.testBit 1 = on2 ∧
        status.toNat.testBit 2 = on3 ∧ status.toNat.testBit 3 = on4 := by decide
  obtain ⟨hupper, h1, h2, h3, h4⟩ :=
    hbits a.square1.enabled a.square2.enabled a.wave.enabled a.noise.enabled
  refine ⟨hupper, fun c => ?_⟩
  cases c with
  | square1 => exact h1
  | square2 => exact h2
  | wave => exact h3
  | noise => exact h4

theorem readPower_testBit (a : Apu) (c : Channel) :
    a.readPower.toNat.testBit c.index = a.channelOn c := by
  have hrest : ∀ power : Bool,
      (0x70 : UInt8).toNat.testBit c.index = false ∧
        (if power then (0x80 : UInt8) else 0).toNat.testBit c.index = false := by
    cases c <;> decide
  obtain ⟨hones, hpower⟩ := hrest a.powered
  rw [readPower, UInt8.toNat_or, UInt8.toNat_or, Nat.testBit_or, Nat.testBit_or, hones, hpower,
    a.status_bits.2, Bool.or_false, Bool.or_false]

structure InRange (a : Apu) : Prop where
  square1 : a.square1.InRange
  square2 : a.square2.InRange
  wave : a.wave.InRange
  noise : a.noise.InRange
  powered : ∀ c, a.channelOn c → a.powered
  sequencer : a.sequencer.counter ≤ sequencerPeriod

variable {a : Apu}

theorem new_inRange : ({} : Apu).InRange where
  square1 := SquareChannel.create_inRange true
  square2 := SquareChannel.create_inRange false
  wave := ⟨by simp, LengthCounter.full_inRange 256, by simp⟩
  noise := NoiseChannel.new_inRange
  powered c h := by cases c <;> cases h
  sequencer := Nat.le_refl _

theorem InRange.converterOn (h : a.InRange) {c : Channel} (hon : a.channelOn c) :
    a.converterOn c := by
  cases c with
  | square1 => exact h.square1.dac hon
  | square2 => exact h.square2.dac hon
  | wave => exact h.wave.dac hon
  | noise => exact h.noise.dac hon

theorem writePower_inRange (h : a.InRange) (v : UInt8) : (a.writePower v).InRange := by
  unfold writePower
  dsimp only
  split
  · exact h
  split
  · exact ⟨h.square1, h.square2, h.wave, h.noise, fun _ _ => rfl, Nat.le_refl _⟩
  · exact ⟨SquareChannel.create_inRange true, SquareChannel.create_inRange false,
      a.wave.powerOff_inRange, NoiseChannel.new_inRange,
      fun c hon => (by cases c <;> cases hon), h.sequencer⟩

theorem writeChannel_inRange (h : a.InRange) (hpower : a.powered) (address : UInt16) (v : UInt8) :
    (a.writeChannel address v).InRange := by
  have hpowered : ∀ (b : Apu) (c : Channel), b.channelOn c → a.powered := fun _ _ _ => hpower
  obtain ⟨h1, h2, h3, h4, hold, hnext⟩ := h
  unfold writeChannel
  split
  · exact ⟨h1.writeSweep v, h2, h3, h4, hpowered _, hnext⟩
  · exact ⟨h1.writeDutyLength v, h2, h3, h4, hpowered _, hnext⟩
  · exact ⟨h1.writeEnvelope v, h2, h3, h4, hpowered _, hnext⟩
  · exact ⟨h1.writeFrequencyLow v, h2, h3, h4, hpowered _, hnext⟩
  · exact ⟨h1.writeFrequencyHigh v, h2, h3, h4, hpowered _, hnext⟩
  · exact ⟨h1, h2.writeDutyLength v, h3, h4, hpowered _, hnext⟩
  · exact ⟨h1, h2.writeEnvelope v, h3, h4, hpowered _, hnext⟩
  · exact ⟨h1, h2.writeFrequencyLow v, h3, h4, hpowered _, hnext⟩
  · exact ⟨h1, h2.writeFrequencyHigh v, h3, h4, hpowered _, hnext⟩
  · exact ⟨h1, h2, h3.writeDac v, h4, hpowered _, hnext⟩
  · exact ⟨h1, h2, h3.writeLength v, h4, hpowered _, hnext⟩
  · exact ⟨h1, h2, h3.writeVolume v, h4, hpowered _, hnext⟩
  · exact ⟨h1, h2, h3.writeFrequencyLow v, h4, hpowered _, hnext⟩
  · exact ⟨h1, h2, h3.writeFrequencyHigh v, h4, hpowered _, hnext⟩
  · exact ⟨h1, h2, h3, h4.writeLength v, hpowered _, hnext⟩
  · exact ⟨h1, h2, h3, h4.writeEnvelope v, hpowered _, hnext⟩
  · exact ⟨h1, h2, h3, h4.writePolynomial v, hpowered _, hnext⟩
  · exact ⟨h1, h2, h3, h4.writeControl v, hpowered _, hnext⟩
  · exact ⟨h1, h2, h3, h4, hold, hnext⟩

theorem writeRegister_inRange (h : a.InRange) (address : UInt16) (v : UInt8) :
    (a.writeRegister address v).InRange := by
  unfold writeRegister
  split
  · exact writePower_inRange h v
  split
  · exact ⟨h.square1, h.square2, h.wave.writeTable _ v, h.noise, h.powered, h.sequencer⟩
  split
  case isTrue hon =>
    have hpower : a.powered := by simp_all
    have hkept : ({ a with registers := a.registers.write (address - 0xFF10).toNat v } : Apu).InRange :=
      ⟨h.square1, h.square2, h.wave, h.noise, h.powered, h.sequencer⟩
    exact writeChannel_inRange hkept hpower address v
  · exact h

theorem writeChannel_powered (a : Apu) (address : UInt16) (v : UInt8) :
    (a.writeChannel address v).powered = a.powered := by
  unfold writeChannel
  split <;> rfl

theorem writeRegister_powered (a : Apu) {address : UInt16} (h : address ≠ 0xFF26) (v : UInt8) :
    (a.writeRegister address v).powered = a.powered := by
  unfold writeRegister
  rw [if_neg h]
  split
  · rfl
  split
  · exact writeChannel_powered _ _ _
  · rfl

theorem writeFrequencyHigh_dacEnabled (c : SquareChannel) (v : UInt8) :
    (c.writeFrequencyHigh v).envelope.dacEnabled = c.envelope.dacEnabled := by
  unfold SquareChannel.writeFrequencyHigh
  dsimp only
  split <;> rfl

theorem writeRegister_converter (a : Apu) {address : UInt16} (hpower : address ≠ 0xFF26)
    (henvelope : address ≠ 0xFF12) (v : UInt8) :
    (a.writeRegister address v).converterOn .square1 = a.converterOn .square1 := by
  unfold writeRegister
  rw [if_neg hpower]
  split
  · rfl
  split
  · unfold writeChannel
    split
    case h_3 => exact absurd rfl henvelope
    case h_5 => exact writeFrequencyHigh_dacEnabled _ v
    all_goals rfl
  · rfl

theorem writePower_on (a : Apu) : (a.writePower 0x80).powered = true := by
  unfold writePower
  cases h : a.powered
  · rfl
  · simp [h]

theorem writeRegisters_inRange (h : a.InRange) (writes : List (UInt16 × UInt8)) :
    (writes.foldl (fun a w => a.writeRegister w.1 w.2) a).InRange :=
  List.foldlRecOn (motive := InRange) writes _ h fun _ hb w _ => writeRegister_inRange hb w.1 w.2

theorem writeRegisters_powered (a : Apu) {writes : List (UInt16 × UInt8)}
    (h : ∀ w ∈ writes, w.1 ≠ 0xFF26) :
    (writes.foldl (fun a w => a.writeRegister w.1 w.2) a).powered = a.powered :=
  List.foldlRecOn (motive := fun b : Apu => b.powered = a.powered) writes _ rfl
    fun b hb w hw => (b.writeRegister_powered (h w hw) w.2).trans hb

theorem writeRegisters_converter (a : Apu) {writes : List (UInt16 × UInt8)}
    (h : ∀ w ∈ writes, w.1 ≠ 0xFF26 ∧ w.1 ≠ 0xFF12) :
    (writes.foldl (fun a w => a.writeRegister w.1 w.2) a).converterOn .square1 =
      a.converterOn .square1 :=
  List.foldlRecOn (motive := fun b : Apu => b.converterOn .square1 = a.converterOn .square1)
    writes _ rfl fun b hb w hw => (b.writeRegister_converter (h w hw).1 (h w hw).2 w.2).trans hb

theorem writeRegister_envelope {a : Apu} (h : a.powered) (v : UInt8) :
    (a.writeRegister 0xFF12 v).square1.envelope = (a.square1.envelope.write v).trigger := by
  unfold writeRegister
  rw [if_neg (by decide), if_neg (by decide), h, if_pos (by decide)]
  rfl

theorem bootWrites_power : ∀ w ∈ bootWrites, w.1 ≠ 0xFF26 := by simp [bootWrites]

theorem bootWrites_converter {a : Apu} (h : a.powered) :
    (bootWrites.foldl (fun a w => a.writeRegister w.1 w.2) a).converterOn .square1 := by
  let first := bootWrites.take 2
  let rest := bootWrites.drop 3
  have hsplit : bootWrites = first ++ (0xFF12, 0xF3) :: rest := rfl
  have hrest : ∀ w ∈ rest, w.1 ≠ 0xFF26 ∧ w.1 ≠ 0xFF12 := by
    have hall : rest.all fun w => decide (w.1 ≠ 0xFF26 ∧ w.1 ≠ 0xFF12) := rfl
    simpa only [List.all_eq_true, decide_eq_true_eq] using hall
  have hfirst : (first.foldl (fun a w => a.writeRegister w.1 w.2) a).powered :=
    (writeRegisters_powered a fun w hw => bootWrites_power w (List.mem_of_mem_take hw)).trans h
  rw [hsplit, List.foldl_append, List.foldl_cons, writeRegisters_converter _ hrest]
  exact congrArg Envelope.dacEnabled (writeRegister_envelope hfirst 0xF3)

theorem afterBoot_inRange (h : a.InRange) : a.afterBoot.InRange := by
  have hwritten := writeRegisters_inRange (writePower_inRange h 0x80) bootWrites
  have hpower := (writeRegisters_powered _ bootWrites_power).trans a.writePower_on
  have hconverter := bootWrites_converter a.writePower_on
  refine ⟨?_, hwritten.square2, hwritten.wave, hwritten.noise, fun _ _ => hpower,
    hwritten.sequencer⟩
  exact ⟨hwritten.square1.frequency, hwritten.square1.shadow,
    ⟨hwritten.square1.envelope.initial, Nat.zero_le _⟩, hwritten.square1.length,
    fun _ => hconverter⟩

theorem render_channelOn (a : Apu) (cycles : Nat) (c : Channel) :
    (a.render cycles).channelOn c = a.channelOn c := by
  cases c with
  | square1 => exact a.output1.render_kept SquareChannel.enabled (fun _ _ => rfl) ..
  | square2 => exact a.output2.render_kept SquareChannel.enabled (fun _ _ => rfl) ..
  | wave => exact a.output3.render_kept WaveChannel.enabled (fun _ _ => rfl) ..
  | noise =>
    refine a.output4.render_kept NoiseChannel.enabled (fun rate voice => ?_) ..
    simp only [NoiseChannel.nextLevel, NoiseChannel.advance]
    split <;> rfl

theorem render_inRange (h : a.InRange) (cycles : Nat) : (a.render cycles).InRange where
  square1 := a.output1.render_voice (fun rate _ h => h.nextLevel rate) h.square1 ..
  square2 := a.output2.render_voice (fun rate _ h => h.nextLevel rate) h.square2 ..
  wave := a.output3.render_voice (fun rate _ h => h.nextLevel rate) h.wave ..
  noise := a.output4.render_voice (fun rate _ h => h.nextLevel rate) h.noise ..
  powered c hon := h.powered c (a.render_channelOn cycles c ▸ hon)
  sequencer := h.sequencer

theorem clockLengths_inRange (h : a.InRange) (hpower : a.powered) : a.clockLengths.InRange :=
  ⟨h.square1.clockLength, h.square2.clockLength, h.wave.clockLength, h.noise.clockLength,
    fun _ _ => hpower, h.sequencer⟩

theorem clockSweep_inRange (h : a.InRange) (hpower : a.powered) : a.clockSweep.InRange :=
  ⟨h.square1.clockSweep, h.square2, h.wave, h.noise, fun _ _ => hpower, h.sequencer⟩

theorem clockEnvelopes_inRange (h : a.InRange) (hpower : a.powered) : a.clockEnvelopes.InRange :=
  ⟨h.square1.clockEnvelope, h.square2.clockEnvelope, h.wave, h.noise.clockEnvelope,
    fun _ _ => hpower, h.sequencer⟩

theorem sequence_inRange (h : a.InRange) (hpower : a.powered) (step : Nat) :
    (a.sequence step).InRange := by
  have hlengths : (if step % 2 = 0 then a.clockLengths else a).InRange ∧
      (if step % 2 = 0 then a.clockLengths else a).powered := by
    split
    · exact ⟨clockLengths_inRange h hpower, hpower⟩
    · exact ⟨h, hpower⟩
  unfold sequence
  generalize (if step % 2 = 0 then a.clockLengths else a) = b at hlengths
  obtain ⟨hb, hbpower⟩ := hlengths
  dsimp only
  split <;> split
  · exact clockEnvelopes_inRange (clockSweep_inRange hb hbpower) hbpower
  · exact clockEnvelopes_inRange hb hbpower
  · exact clockSweep_inRange hb hbpower
  · exact hb

theorem tick_inRange (h : a.InRange) (cycles : Nat) : (a.tick cycles).InRange := by
  rcases Nat.lt_or_ge cycles a.sequencer.counter with hlt | hle
  · rw [tick_of_lt hlt]
    exact ⟨h.square1, h.square2, h.wave, h.noise, h.powered,
      Nat.le_trans (Nat.sub_le ..) h.sequencer⟩
  · rw [tick_of_le hle]
    have hnext : { a with sequencer := .before ((a.sequencer.next + 1) % 8) : Apu }.InRange :=
      ⟨h.square1, h.square2, h.wave, h.noise, h.powered, Nat.le_refl _⟩
    dsimp only
    split
    case isTrue hpower => exact sequence_inRange hnext hpower _
    case isFalse => exact hnext

theorem segment_inRange (h : a.InRange) (cycles : Nat) : (a.segment cycles).InRange :=
  tick_inRange (render_inRange h cycles) cycles

theorem run_inRange (h : a.InRange) (n : Nat) : (a.run n).InRange := by
  induction a, n using Apu.run.induct with
  | case1 a => rwa [run_zero]
  | case2 a n hsome span ih =>
    rw [run_of_pos a (Nat.pos_of_ne_zero hsome)]
    exact ih (segment_inRange h span)

theorem carrying_inRange (h : a.InRange) (outputs : Channel → ChannelOutput) (cycles : Nat) :
    (a.carrying outputs cycles).InRange :=
  ⟨h.square1, h.square2, h.wave, h.noise, h.powered, h.sequencer⟩

theorem step_inRange (h : a.InRange) (n : Nat) : (a.step n).InRange := by
  rw [step_eq]
  exact carrying_inRange (run_inRange h n) _ _

theorem setOutput_inRange (h : a.InRange) (c : Channel) (o : ChannelOutput) :
    (a.setOutput c o).InRange := by
  cases c <;> exact ⟨h.square1, h.square2, h.wave, h.noise, h.powered, h.sequencer⟩

theorem perform_inRange (h : a.InRange) (e : Event) : (a.perform e).InRange := by
  cases e with
  | step n => exact step_inRange h n
  | write address v => exact writeRegister_inRange h address v
  | boot => exact afterBoot_inRange h
  | connect c sink => exact setOutput_inRange h c _
  | drain c => exact setOutput_inRange h c _

theorem performAll_inRange (h : a.InRange) (events : List Event) : (a.performAll events).InRange := by
  induction events generalizing a with
  | nil => exact h
  | cons e rest ih => exact ih (perform_inRange h e)

/-- The bounds of the numbers that the unit counts and divides with. -/
structure Bounded (a : Apu) : Prop where
  frequencies : a.square1.frequency ≤ 2047 ∧ a.square2.frequency ≤ 2047 ∧ a.wave.frequency ≤ 2047
  shadow : ∀ s ∈ a.square1.sweep, s.shadow ≤ 2047
  volumes : a.square1.envelope.volume ≤ 15 ∧ a.square2.envelope.volume ≤ 15 ∧
    a.noise.envelope.volume ≤ 15
  lengths : a.square1.length.remaining ≤ 64 ∧ a.square2.length.remaining ≤ 64 ∧
    a.wave.length.remaining ≤ 256 ∧ a.noise.length.remaining ≤ 64
  sequencer : 1 ≤ a.sequencer.counter ∧ a.sequencer.counter ≤ 8192

theorem InRange.bounded (h : a.InRange) : a.Bounded where
  frequencies := ⟨h.square1.frequency, h.square2.frequency, h.wave.frequency⟩
  shadow := h.square1.shadow
  volumes := ⟨h.square1.envelope.volume, h.square2.envelope.volume, h.noise.envelope.volume⟩
  lengths := ⟨h.square1.length.remaining, h.square2.length.remaining, h.wave.length.remaining,
    h.noise.length.remaining⟩
  sequencer := ⟨a.sequencer.counter_pos, h.sequencer⟩

/-- After any history a channel that reads as on has its converter and the power on, and every
number is within its bounds. Both the bounds and the power of a channel that is on hold all through
a further step, whose loop always has cycles to take that the sequencer can count down. -/
theorem performAll_bounded (events : List Event) :
    let a := ({} : Apu).performAll events
    (∀ c, (a.readRegister 0xFF26).toNat.testBit c.index → a.converterOn c ∧ a.powered) ∧
      a.Bounded ∧
      ∀ n done, done < n →
        let b := { a with cycles := a.cycles + n : Apu }.run done
        let left := n - done
        let span := min left b.sequencer.counter
        b.Bounded ∧ (∀ c, b.channelOn c → b.converterOn c ∧ b.powered) ∧
          0 < span ∧ span ≤ b.sequencer.counter ∧ left - span < left ∧
          b.run left = (b.segment span).run (left - span) := by
  intro a
  have ha : a.InRange := performAll_inRange new_inRange events
  refine ⟨fun c hstatus => ?_, ha.bounded, fun n done hdone => ?_⟩
  · have hon : a.channelOn c := (a.readPower_testBit c).symm.trans hstatus
    exact ⟨ha.converterOn hon, ha.powered c hon⟩
  intro b left span
  have hb : b.InRange :=
    run_inRange (carrying_inRange ha a.output (a.cycles + n)) done
  have hleft : 0 < left := Nat.sub_pos_of_lt hdone
  have hspan : 0 < span := Nat.lt_min.mpr ⟨hleft, b.sequencer.counter_pos⟩
  exact ⟨hb.bounded, fun c hon => ⟨hb.converterOn hon, hb.powered c hon⟩, hspan,
    Nat.min_le_right .., Nat.sub_lt hleft hspan, b.run_of_pos hleft⟩

end Apu
end Handheld
