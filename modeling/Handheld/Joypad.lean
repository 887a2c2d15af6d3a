/-!
The joypad register. The buttons held on the host are a value of their own, `Buttons`; the register
samples them when it is read or polled, and requests an interrupt when a selected line falls.
-/

namespace Handheld

inductive Button where
  | a
  | b
  | select
  | start
  | right
  | left
  | up
  | down
  deriving DecidableEq, Repr

namespace Button

def all : List Button := [.a, .b, .select, .start, .right, .left, .up, .down]

def name : Button → String
  | .a => "A"
  | .b => "B"
  | .select => "Select"
  | .start => "Start"
  | .right => "Right"
  | .left => "Left"
  | .up => "Up"
  | .down => "Down"

/-- Place of a button in the packed state: action buttons low, direction pad high. -/
def mask : Button → UInt8
  | .a => 0x01
  | .b => 0x02
  | .select => 0x04
  | .start => 0x08
  | .right => 0x10
  | .left => 0x20
  | .up => 0x40
  | .down => 0x80

end Button

structure Buttons where
  bits : UInt8 := 0
  deriving DecidableEq, Repr

namespace Buttons

def press (s : Buttons) (button : Button) : Buttons := ⟨s.bits ||| button.mask⟩

def release (s : Buttons) (button : Button) : Buttons := ⟨s.bits &&& ~~~button.mask⟩

def set (s : Buttons) (button : Button) (down : Bool) : Buttons :=
  if down then s.press button else s.release button

end Buttons

structure Joypad where
  /-- Select bits as last written; a group is selected while its bit is low. -/
  select : UInt8 := 0x30
  sampled : Buttons := {}
  deriving DecidableEq, Repr

namespace Joypad

/-- The four lines: a held button of a selected group pulls its line low. -/
def lines (p : Joypad) : UInt8 :=
  let directions := if p.select &&& 0x10 = 0 then p.sampled.bits >>> 4 else 0
  let actions := if p.select &&& 0x20 = 0 then p.sampled.bits else 0
  ~~~(directions ||| actions) &&& 0x0F

/-- Samples the held buttons; the flag requests an interrupt, when a line that was high is low. -/
def sync (p : Joypad) (held : Buttons) : Joypad × Bool :=
  let next := { p with sampled := held }
  (next, p.lines &&& ~~~next.lines &&& 0x0F != 0)

def read (p : Joypad) (held : Buttons) : UInt8 × Joypad × Bool :=
  let (p, raised) := p.sync held
  (0xC0 ||| p.select ||| p.lines, p, raised)

def write (p : Joypad) (v : UInt8) : Joypad := { p with select := v &&& 0x30 }

def anyHeld (p : Joypad) : Bool := p.sampled.bits != 0

end Joypad
end Handheld
