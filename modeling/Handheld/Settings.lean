import Handheld.Cartridge.Header
import Handheld.Ppu.Palette

/-!
Settings of a machine.
-/

namespace Handheld

inductive ModelPreference where
  /-- The one its header asks for. -/
  | auto
  | forceMonochrome
  | forceColor
  deriving DecidableEq, Repr

def ModelPreference.resolve (p : ModelPreference) (h : Header) : Model :=
  match p with
  | .auto => if h.supportsColor then .color else .monochrome
  | .forceMonochrome => .monochrome
  | .forceColor => .color

structure MachineSettings where
  model : ModelPreference := .auto
  /-- Wait between frames for whatever paces the machine. -/
  frameLimit : Bool := true
  /-- Pause when the program does something the machine faults on. -/
  breakOnFault : Bool := false
  /-- Shades of a monochrome console, where they are not the usual ones. -/
  shades : Option Shades := none
  /-- Frames a second of the audio queues. -/
  sampleRate : Nat := 44100
  deriving DecidableEq, Repr

end Handheld
