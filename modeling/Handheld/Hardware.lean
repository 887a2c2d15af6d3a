/-!
Clock constants of the console, its two models and the two speeds of the processor.
-/

namespace Handheld

def clockHz : Nat := 4194304

def dotsPerLine : Nat := 456

/-- Scanlines in a frame, the visible ones and those of the vertical blank. -/
def linesPerFrame : Nat := 154

def cyclesPerFrame : Nat := dotsPerLine * linesPerFrame

def framePeriodNanoseconds : Nat := cyclesPerFrame * 1000000000 / clockHz

inductive Model where
  | monochrome
  | color
  deriving DecidableEq, Repr

namespace Model

def isColor : Model → Bool
  | .monochrome => false
  | .color => true

def name : Model → String
  | .monochrome => "Dmg"
  | .color => "Cgb"

end Model

/-- Processor speed. A color console can be switched to double speed. -/
inductive Speed where
  | normal
  | double
  deriving DecidableEq, Repr

namespace Speed

def isDouble : Speed → Bool
  | .normal => false
  | .double => true

def name : Speed → String
  | .normal => "Normal"
  | .double => "Double"

def divisor : Speed → Nat
  | .normal => 1
  | .double => 2

/-- Processor cycles in one frame. -/
def frameBudget (s : Speed) : Nat := cyclesPerFrame * s.divisor

def other : Speed → Speed
  | .normal => .double
  | .double => .normal

end Speed
end Handheld
