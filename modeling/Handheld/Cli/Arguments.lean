import Handheld.Configuration

/-!
The arguments of the command line program, and what they change in its settings. What reads them
from the words of a command line is a parameter of the program.
-/

namespace Handheld

structure Arguments where
  rom : Option String := none
  config : Option String := none
  monochrome : Bool := false
  color : Bool := false
  frames : Option Nat := none
  seconds : Option Nat := none
  screenshot : Option String := none
  serial : Bool := false
  unlimited : Bool := false
  breakOnFault : Bool := false
  /-- Addresses to stop at, in the order given. -/
  breakpoints : List UInt16 := []
  save : Option String := none
  audio : Bool := false
  writeConfig : Bool := false
  deriving DecidableEq, Repr

inductive Request where
  | run (a : Arguments)
  | help
  | version
  /-- It does not make sense. -/
  | refused
  deriving DecidableEq, Repr

/-- A library that reads command lines, given what reads an address in them. -/
structure CommandLibrary where
  parse (address? : String → Option UInt16) (words : List String) : Request
  usage : String
  version : String

namespace Arguments

def model (a : Arguments) (p : ModelPreference) : ModelPreference :=
  if a.monochrome then .forceMonochrome else if a.color then .forceColor else p

def apply (a : Arguments) (s : ProgramSettings) : ProgramSettings where
  machine :=
    { s.machine with
      model := a.model s.machine.model
      frameLimit := s.machine.frameLimit && !a.unlimited
      breakOnFault := s.machine.breakOnFault || a.breakOnFault }
  run :=
    { frames := a.frames.getD s.run.frames
      timeoutSeconds := a.seconds.getD s.run.timeoutSeconds
      screenshot := a.screenshot.orElse fun _ => s.run.screenshot
      serial := s.run.serial || a.serial
      audioReport := s.run.audioReport || a.audio }

end Arguments
end Handheld
