/-!
The divider and timer. TIMA counts falling edges of one divider bit, gated by the enable bit of TAC;
so a divider reset and a change of TAC can make it count as well as a passing cycle can.
-/

namespace Handheld

structure Timer where
  /-- The whole divider; the register DIV shows its upper half. -/
  div : UInt16 := 0
  tima : UInt8 := 0
  tma : UInt8 := 0
  tac : UInt8 := 0
  /-- The gated divider bit as last sampled. -/
  lastSignal : Bool := false
  deriving DecidableEq, Repr

namespace Timer

def rateBit (tac : UInt8) : Nat :=
  match tac.toNat % 4 with
  | 0 => 9
  | 1 => 3
  | 2 => 5
  | _ => 7

/-- Cycles from one count of TIMA to the next. -/
def period (t : Timer) : Nat := 2 <<< rateBit t.tac

def enabled (t : Timer) : Bool := t.tac &&& 0x04 != 0

def signal (t : Timer) : Bool := t.enabled && t.div.toNat.testBit (rateBit t.tac)

/-- Counts once; the flag says whether TIMA ran over, which reloads it and requests an interrupt. -/
def increment (t : Timer) : Timer × Bool :=
  if t.tima = 0xFF then ({ t with tima := t.tma }, true)
  else ({ t with tima := t.tima + 1 }, false)

def sample (t : Timer) : Timer × Bool :=
  let new := t.signal
  if t.lastSignal && !new then { t with lastSignal := new }.increment
  else ({ t with lastSignal := new }, false)

/-- Overwrites the divider, which may make the sampled bit fall. -/
def setDiv (t : Timer) (div : UInt16) : Timer × Bool := { t with div }.sample

def step (t : Timer) : Timer × Bool := t.setDiv (t.div + 1)

/-- A number of cycles; the flag says whether any of them requested an interrupt. -/
def stepMany : Nat → Timer → Timer × Bool
  | 0, t => (t, false)
  | n + 1, t =>
    let (t, raised) := t.step
    let (t, later) := stepMany n t
    (t, raised || later)

def read (t : Timer) (address : UInt16) : UInt8 :=
  match address with
  | 0xFF04 => (t.div >>> 8).toUInt8
  | 0xFF05 => t.tima
  | 0xFF06 => t.tma
  | 0xFF07 => t.tac ||| 0xF8
  | _ => 0xFF

def write (t : Timer) (address : UInt16) (v : UInt8) : Timer × Bool :=
  match address with
  | 0xFF04 => t.setDiv 0
  | 0xFF05 => ({ t with tima := v }, false)
  | 0xFF06 => ({ t with tma := v }, false)
  | 0xFF07 => { t with tac := v &&& 0x07 }.sample
  | _ => (t, false)

end Timer
end Handheld
