import Handheld.Cpu.Registers
import Handheld.Text.Hexadecimal
import Handheld.Text.Quoted

/-!
Breakpoints, consulted at every instruction boundary. Whether any is enabled is kept at hand, so
that a machine without breakpoints does not look for one.
-/

namespace Handheld

structure Breakpoint where
  id : Nat
  enabled : Bool := true
  address : UInt16
  message : Option String := none
  /-- What must hold of the registers, besides the address. -/
  condition : Option (Registers → Bool) := none

namespace Breakpoint

def isHit (b : Breakpoint) (pc : UInt16) (r : Registers) : Bool :=
  b.enabled && b.address == pc && b.condition.all (· r)

def boolText (b : Bool) : String := if b then "true" else "false"

def messageText : Option String → String
  | none => "None"
  | some m => "Some(" ++ Quoted.quote m ++ ")"

def describe (b : Breakpoint) : String :=
  "Breakpoint \x7b id: " ++ toString b.id ++ ", enabled: " ++ boolText b.enabled
    ++ ", addr: 0x" ++ Hexadecimal.word b.address
    ++ ", conditional: " ++ boolText b.condition.isSome
    ++ ", message: " ++ messageText b.message ++ " \x7d"

end Breakpoint

structure BreakpointSet where
  /-- In the order in which they were added. -/
  entries : List Breakpoint := []
  /-- The id given last. -/
  lastId : Nat := 0
  armed : Bool := false
  /-- None is hit for the time being. -/
  suspended : Bool := false

namespace BreakpointSet

def rearm (s : BreakpointSet) : BreakpointSet := { s with armed := s.entries.any (·.enabled) }

/-- Adds a breakpoint and gives its id, one that was never given before. -/
def insert (s : BreakpointSet) (address : UInt16) (condition : Option (Registers → Bool)) :
    Nat × BreakpointSet :=
  let id := s.lastId + 1
  (id, { s with entries := s.entries ++ [{ id, address, condition }], lastId := id
    : BreakpointSet }.rearm)

def add (s : BreakpointSet) (address : UInt16) : Nat × BreakpointSet := s.insert address none

def addWhen (s : BreakpointSet) (address : UInt16) (condition : Registers → Bool) :
    Nat × BreakpointSet := s.insert address (some condition)

def get? (s : BreakpointSet) (id : Nat) : Option Breakpoint := s.entries.find? (·.id == id)

def contains (s : BreakpointSet) (id : Nat) : Bool := s.entries.any (·.id == id)

def update (s : BreakpointSet) (id : Nat) (f : Breakpoint → Breakpoint) : BreakpointSet :=
  { s with entries := s.entries.map fun b => if b.id == id then f b else b }

def setMessage (s : BreakpointSet) (id : Nat) (message : String) : Bool × BreakpointSet :=
  (s.contains id, s.update id ({ · with message := some message }))

def setEnabled (s : BreakpointSet) (id : Nat) (enabled : Bool) : Bool × BreakpointSet :=
  (s.contains id, (s.update id ({ · with enabled })).rearm)

def remove (s : BreakpointSet) (id : Nat) : Bool × BreakpointSet :=
  (s.contains id, { s with entries := s.entries.filter (·.id != id) : BreakpointSet }.rearm)

def clear (s : BreakpointSet) : BreakpointSet := { s with entries := [], armed := false }

def setSuspended (s : BreakpointSet) (suspended : Bool) : BreakpointSet := { s with suspended }

def check (s : BreakpointSet) (pc : UInt16) (r : Registers) : Option Nat :=
  if s.suspended || !s.armed then none
  else (s.entries.find? (·.isHit pc r)).map (·.id)

end BreakpointSet
end Handheld
