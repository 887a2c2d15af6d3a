import Handheld.Sound.Envelope

/-!
The pulse channels, one of which can sweep its frequency. A pulse is the difference of two saws a
duty fraction apart, each smoothed around its edge.
-/

namespace Handheld

def frequencyLimit : Nat := 2047

def withFrequencyLow (frequency : Nat) (v : UInt8) : Nat := frequency &&& 0x0700 ||| v.toNat

/-- The frequency register with new upper bits, the low three of `v`. -/
def withFrequencyHigh (frequency : Nat) (v : UInt8) : Nat :=
  frequency &&& 0x00FF ||| (v.toNat % 8) <<< 8

def fraction (x : Float) : Float := x - x.floor

structure Sweep where
  period : Nat := 0
  negate : Bool := false
  shift : Nat := 0
  timer : Nat := 0
  /-- The frequency that the next update starts from. -/
  shadow : Nat := 0
  enabled : Bool := false
  deriving DecidableEq, Repr

namespace Sweep

def next (s : Sweep) : Nat :=
  let delta := s.shadow >>> s.shift
  if s.negate then s.shadow - delta else s.shadow + delta

def overflows (s : Sweep) : Bool := frequencyLimit < s.next

def write (s : Sweep) (v : UInt8) : Sweep :=
  { s with period := v.toNat / 16 % 8, negate := v &&& 0x08 != 0, shift := v.toNat % 8 }

def reload (s : Sweep) (frequency : Nat) : Sweep :=
  { s with shadow := frequency, timer := s.period, enabled := s.period != 0 || s.shift != 0 }

/-- What a clock of the sweep does to its channel. -/
inductive Outcome where
  | unchanged
  | retuned (frequency : Nat)
  | stopped
  /-- The new frequency holds, but the one after it would be too high. -/
  | retunedAndStopped (frequency : Nat)
  deriving DecidableEq, Repr

def update (s : Sweep) : Sweep × Outcome :=
  let s := { s with timer := s.period }
  let frequency := s.next
  if s.overflows then ({ s with enabled := false }, .stopped)
  else if s.shift = 0 then (s, .unchanged)
  else
    let s := { s with shadow := frequency }
    if s.overflows then ({ s with enabled := false }, .retunedAndStopped frequency)
    else (s, .retuned frequency)

def clock (s : Sweep) : Sweep × Outcome :=
  if !s.enabled || s.period = 0 then (s, .unchanged)
  else if 1 < s.timer then ({ s with timer := s.timer - 1 }, .unchanged)
  else s.update

end Sweep

structure SquareChannel where
  sweep : Option Sweep
  enabled : Bool := false
  length : LengthCounter := .full 64
  envelope : Envelope := {}
  duty : Nat := 0
  frequency : Nat := 0
  phase : Float := 0.0

namespace SquareChannel

def create (withSweep : Bool) : SquareChannel := { sweep := if withSweep then some {} else none }

def baseHz : Float := 131072.0

def frequencyHz (c : SquareChannel) : Float := baseHz / Float.ofNat (2048 - c.frequency)

def setFrequencyHz (c : SquareChannel) (hz : Float) : SquareChannel :=
  if hz ≤ 0.0 then { c with frequency := 0 }
  else
    let value := (2048.0 - baseHz / hz).round
    let clamped := if value < 0.0 then 0.0 else if 2047.0 < value then 2047.0 else value
    { c with frequency := clamped.toUInt16.toNat }

def writeSweep (c : SquareChannel) (v : UInt8) : SquareChannel :=
  { c with sweep := c.sweep.map (·.write v) }

def writeDutyLength (c : SquareChannel) (v : UInt8) : SquareChannel :=
  { c with duty := v.toNat / 64, length := c.length.load (v.toNat % 64) }

/-- A write to the envelope register restarts it, and silences the channel for good when the
envelope can make no sound. -/
def writeEnvelope (c : SquareChannel) (v : UInt8) : SquareChannel :=
  let envelope := (c.envelope.write v).trigger
  { c with envelope, enabled := c.enabled && envelope.dacEnabled }

def writeFrequencyLow (c : SquareChannel) (v : UInt8) : SquareChannel :=
  { c with frequency := withFrequencyLow c.frequency v }

/-- Starts the sound anew. A sweep whose first update would be too high stops it at once. -/
def trigger (c : SquareChannel) : SquareChannel :=
  let sweep := c.sweep.map (·.reload c.frequency)
  let blocked := sweep.any fun s => s.shift != 0 && s.overflows
  { c with
    sweep
    enabled := c.envelope.dacEnabled && !blocked
    length := c.length.trigger
    envelope := c.envelope.trigger
    phase := 0.0 }

def writeFrequencyHigh (c : SquareChannel) (v : UInt8) : SquareChannel :=
  let c :=
    { c with
      frequency := withFrequencyHigh c.frequency v
      length := { c.length with enabled := v &&& 0x40 != 0 } }
  if v &&& 0x80 != 0 then c.trigger else c

def clockSweep (c : SquareChannel) : SquareChannel :=
  match c.sweep with
  | none => c
  | some s =>
    let (s, outcome) := s.clock
    let c := { c with sweep := some s }
    match outcome with
    | .unchanged => c
    | .retuned frequency => { c with frequency }
    | .stopped => { c with enabled := false }
    | .retunedAndStopped frequency => { c with frequency, enabled := false }

def clockLength (c : SquareChannel) : SquareChannel := { c with length := c.length.clock }

def clockEnvelope (c : SquareChannel) : SquareChannel := { c with envelope := c.envelope.clock }

def audible (c : SquareChannel) : Bool := c.enabled && !c.length.expired

def dutyFraction (c : SquareChannel) : Float :=
  match c.duty with
  | 0 => 0.125
  | 1 => 0.25
  | 2 => 0.5
  | _ => 0.75

/-- Correction of a saw within one step `dt` of its edge at phase 0. -/
def edgeCorrection (t dt : Float) : Float :=
  if t < dt then
    let t := t / dt
    t + t - t * t - 1.0
  else if t > 1.0 - dt then
    let t := (t - 1.0) / dt
    t * t + t + t + 1.0
  else 0.0

def saw (phase dt : Float) : Float := 2.0 * phase - 1.0 - edgeCorrection phase dt

/-- The level at a phase of a pulse that moves on by `dt` a sample. -/
def pulse (c : SquareChannel) (phase dt : Float) : Float32 :=
  let shifted := fraction (phase - c.dutyFraction + 1.0)
  (0.5 * (saw shifted dt - saw phase dt)).toFloat32 * c.envelope.gain

/-- The next sample at a sample rate. Frequencies that the rate cannot carry are silent. -/
def nextLevel (rate : Float) (c : SquareChannel) : Float32 × SquareChannel :=
  let dt := c.frequencyHz / rate
  let phase := c.phase
  let level := if !c.audible || dt ≥ 0.5 then 0.0 else c.pulse phase dt
  (level, { c with phase := fraction (phase + dt) })

end SquareChannel
end Handheld
