/-!
The two slow controls that channels share: the length counter, which silences a channel when it runs
out, and the volume envelope.
-/

namespace Handheld

/-- Counts ticks down. A channel whose enabled counter has run out is silent but stays on. -/
structure LengthCounter where
  max : Nat
  remaining : Nat
  enabled : Bool := false
  deriving DecidableEq, Repr

namespace LengthCounter

def full (max : Nat) : LengthCounter := { max, remaining := max }

def load (c : LengthCounter) (value : Nat) : LengthCounter :=
  { c with remaining := c.max - min value (c.max - 1) }

def trigger (c : LengthCounter) : LengthCounter :=
  if c.remaining = 0 then { c with remaining := c.max } else c

def clock (c : LengthCounter) : LengthCounter :=
  if c.enabled then { c with remaining := c.remaining - 1 } else c

def expired (c : LengthCounter) : Bool := c.enabled && c.remaining == 0

end LengthCounter

/-- A volume that rises or falls by one every `period` clocks; period 0 holds it. -/
structure Envelope where
  initial : Nat := 0
  period : Nat := 0
  rising : Bool := false
  volume : Nat := 0
  timer : Nat := 0
  deriving DecidableEq, Repr

namespace Envelope

def write (e : Envelope) (v : UInt8) : Envelope :=
  { e with initial := v.toNat / 16, rising := v &&& 0x08 != 0, period := v.toNat % 8 }

def trigger (e : Envelope) : Envelope := { e with volume := e.initial, timer := e.period }

def stepVolume (e : Envelope) : Nat := if e.rising then min 15 (e.volume + 1) else e.volume - 1

def clock (e : Envelope) : Envelope :=
  if e.period = 0 then e
  else if e.timer ≤ 1 then { e with timer := e.period, volume := e.stepVolume }
  else { e with timer := e.timer - 1 }

/-- A channel can sound unless its envelope starts at zero and falls. -/
def dacEnabled (e : Envelope) : Bool := e.initial != 0 || e.rising

def gain (e : Envelope) : Float32 := Float32.ofNat e.volume / 15.0

end Envelope
end Handheld
