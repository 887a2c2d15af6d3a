import Handheld.Sound.Envelope

/-!
The noise channel: a shift register with feedback, whose low bit is heard through an envelope.
-/

namespace Handheld

/-- A fifteen-bit shift register that feeds the sum of its low two bits back at the top, and in
narrow mode also into bit 6. -/
structure Lfsr where
  state : Nat := 0x7FFF
  narrow : Bool := false
  deriving DecidableEq, Repr

namespace Lfsr

def bit (r : Lfsr) : Bool := r.state.testBit 0

def feedback (state : Nat) : Nat := (state ^^^ state >>> 1) &&& 1

def clock (r : Lfsr) : Lfsr :=
  let fed := feedback r.state
  let wide := r.state >>> 1 ||| fed <<< 14
  { r with state := if r.narrow then wide &&& 0xFFBF ||| fed <<< 6 else wide }

def clockMany : Nat → Lfsr → Lfsr
  | 0, r => r
  | n + 1, r => clockMany n r.clock

end Lfsr

structure NoiseChannel where
  enabled : Bool := false
  length : LengthCounter := .full 64
  envelope : Envelope := {}
  shift : Nat := 0
  divisor : Nat := 0
  narrow : Bool := false
  lfsr : Lfsr := {}
  /-- Clocks of the register owed, less than one. -/
  clocks : Float := 0.0

namespace NoiseChannel

def baseHz : Float := 524288.0

/-- Clock rate of the shift register. Divisor 0 counts as a half. -/
def frequencyHz (c : NoiseChannel) : Float :=
  let divisor := if c.divisor = 0 then 0.5 else Float.ofNat c.divisor
  baseHz / divisor / Float.ofNat (1 <<< (c.shift + 1))

def writeLength (c : NoiseChannel) (v : UInt8) : NoiseChannel :=
  { c with length := c.length.load (v.toNat % 64) }

def writeEnvelope (c : NoiseChannel) (v : UInt8) : NoiseChannel :=
  let envelope := (c.envelope.write v).trigger
  { c with envelope, enabled := c.enabled && envelope.dacEnabled }

def writePolynomial (c : NoiseChannel) (v : UInt8) : NoiseChannel :=
  { c with shift := v.toNat / 16, narrow := v &&& 0x08 != 0, divisor := v.toNat % 8 }

def trigger (c : NoiseChannel) : NoiseChannel :=
  { c with
    enabled := c.envelope.dacEnabled
    length := c.length.trigger
    envelope := c.envelope.trigger
    lfsr := { narrow := c.narrow }
    clocks := 0.0 }

def writeControl (c : NoiseChannel) (v : UInt8) : NoiseChannel :=
  let c := { c with length := { c.length with enabled := v &&& 0x40 != 0 } }
  if v &&& 0x80 != 0 then c.trigger else c

def clockLength (c : NoiseChannel) : NoiseChannel := { c with length := c.length.clock }

def clockEnvelope (c : NoiseChannel) : NoiseChannel := { c with envelope := c.envelope.clock }

def audible (c : NoiseChannel) : Bool := c.enabled && !c.length.expired

/-- Runs the shift register for one sample. The two largest shifts stop it. -/
def advance (rate : Float) (c : NoiseChannel) : NoiseChannel :=
  if c.shift < 14 then
    let clocks := c.clocks + c.frequencyHz / rate
    let whole := clocks.floor
    { c with lfsr := c.lfsr.clockMany whole.toUInt64.toNat, clocks := clocks - whole }
  else c

def nextLevel (rate : Float) (c : NoiseChannel) : Float32 × NoiseChannel :=
  let c := c.advance rate
  let level := if c.audible then (if c.lfsr.bit then 1.0 else -1.0) * c.envelope.gain else 0.0
  (level, c)

end NoiseChannel
end Handheld
