/-!
The clock registers of a controller. They are plain storage: what a program reads is the copy made
by the last completed latch, and the clock itself does not run.
-/

namespace Handheld

inductive ClockField where
  | seconds
  | minutes
  | hours
  | dayLow
  | dayHigh
  deriving DecidableEq, Repr

namespace ClockField

def ofNumber? (n : UInt8) : Option ClockField :=
  match n with
  | 0x08 => some .seconds
  | 0x09 => some .minutes
  | 0x0A => some .hours
  | 0x0B => some .dayLow
  | 0x0C => some .dayHigh
  | _ => none

def mask : ClockField → UInt8
  | .seconds => 0x3F
  | .minutes => 0x3F
  | .hours => 0x1F
  | .dayLow => 0xFF
  | .dayHigh => 0xC1

end ClockField

structure ClockValues where
  seconds : UInt8 := 0
  minutes : UInt8 := 0
  hours : UInt8 := 0
  dayLow : UInt8 := 0
  dayHigh : UInt8 := 0
  deriving DecidableEq, Repr

namespace ClockValues

def get (c : ClockValues) : ClockField → UInt8
  | .seconds => c.seconds
  | .minutes => c.minutes
  | .hours => c.hours
  | .dayLow => c.dayLow
  | .dayHigh => c.dayHigh

def set (c : ClockValues) (f : ClockField) (v : UInt8) : ClockValues :=
  match f with
  | .seconds => { c with seconds := v }
  | .minutes => { c with minutes := v }
  | .hours => { c with hours := v }
  | .dayLow => { c with dayLow := v }
  | .dayHigh => { c with dayHigh := v }

theorem get_set (c : ClockValues) (f g : ClockField) (v : UInt8) :
    (c.set f v).get g = if f = g then v else c.get g := by
  cases f <;> cases g <;> rfl

end ClockValues

structure ClockRegisters where
  /-- What was written. -/
  live : ClockValues := {}
  /-- What is read. -/
  latched : ClockValues := {}
  /-- The last latch write was 00, so that 01 completes a latch. -/
  armed : Bool := false
  deriving DecidableEq, Repr

namespace ClockRegisters

/-- Bits that a field does not have read as ones, and so does a register that is no field. -/
def read (c : ClockRegisters) (n : UInt8) : UInt8 :=
  match ClockField.ofNumber? n with
  | some f => c.latched.get f ||| ~~~f.mask
  | none => 0xFF

def write (c : ClockRegisters) (n v : UInt8) : ClockRegisters :=
  match ClockField.ofNumber? n with
  | some f => { c with live := c.live.set f (v &&& f.mask) }
  | none => c

def writeLatch (c : ClockRegisters) (v : UInt8) : ClockRegisters :=
  if v = 0x01 && c.armed then { c with latched := c.live, armed := false }
  else { c with armed := v == 0x00 }

end ClockRegisters
end Handheld
