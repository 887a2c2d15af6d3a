/-!
The five interrupt sources and the two registers that hold which are requested and which enabled.
A unit says which sources it requests; whoever clocks the unit enters them here.
-/

namespace Handheld

inductive Interrupt where
  | vblank
  | lcdStat
  | timer
  | serial
  | joypad
  deriving DecidableEq, Repr

namespace Interrupt

def all : List Interrupt := [.vblank, .lcdStat, .timer, .serial, .joypad]

def name : Interrupt → String
  | .vblank => "VBlank"
  | .lcdStat => "LcdStat"
  | .timer => "Timer"
  | .serial => "Serial"
  | .joypad => "Joypad"

def bit : Interrupt → Nat
  | .vblank => 0
  | .lcdStat => 1
  | .timer => 2
  | .serial => 3
  | .joypad => 4

def mask (i : Interrupt) : UInt8 := 1 <<< UInt8.ofNat i.bit

def vector (i : Interrupt) : UInt16 := 0x40 + 8 * UInt16.ofNat i.bit

def ofBit? (n : Nat) : Option Interrupt := all[n]?

theorem ofBit?_eq_some_iff {n : Nat} {i : Interrupt} : ofBit? n = some i ↔ n = i.bit := by
  match n with
  | 0 | 1 | 2 | 3 | 4 => cases i <;> simp [ofBit?, all, bit]
  | n + 5 => cases i <;> simp [ofBit?, all, bit]

end Interrupt

def interruptBits : UInt8 := 0x1F

/-- The request and enable registers. Only the low five bits of `requested` are ever set. -/
structure Interrupts where
  requested : UInt8 := 0
  enabled : UInt8 := 0
  deriving DecidableEq, Repr

namespace Interrupts

def raise (s : Interrupts) (i : Interrupt) : Interrupts :=
  { s with requested := s.requested ||| i.mask }

/-- Enters a request that a unit makes on a condition. -/
def raiseIf (s : Interrupts) (i : Interrupt) (wanted : Bool) : Interrupts :=
  if wanted then s.raise i else s

def acknowledge (s : Interrupts) (i : Interrupt) : Interrupts :=
  { s with requested := s.requested &&& ~~~i.mask }

/-- The request register as a program sees it: the upper three bits read high. -/
def readRequested (s : Interrupts) : UInt8 := s.requested ||| 0xE0

def writeRequested (s : Interrupts) (v : UInt8) : Interrupts :=
  { s with requested := v &&& interruptBits }

def writeEnabled (s : Interrupts) (v : UInt8) : Interrupts := { s with enabled := v }

def pending (s : Interrupts) : UInt8 := s.requested &&& s.enabled &&& interruptBits

def isPending (s : Interrupts) (i : Interrupt) : Bool := s.pending &&& i.mask != 0

def isRequested (s : Interrupts) (i : Interrupt) : Bool := s.requested &&& i.mask != 0

def highestPending? (s : Interrupts) : Option Interrupt :=
  if s.pending = 0 then none else Interrupt.all.find? s.isPending

end Interrupts
end Handheld
