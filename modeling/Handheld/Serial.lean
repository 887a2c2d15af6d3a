/-!
The serial link with no cable. A transfer on the internal clock shifts in ones and requests an
interrupt after eight bits; the bytes sent are captured for the host.
-/

namespace Handheld

structure Serial where
  sb : UInt8 := 0
  sc : UInt8 := 0x7E
  /-- Bits of the running transfer still to shift. -/
  bitsLeft : Nat := 0
  /-- Cycles since the last shift. -/
  counter : Nat := 0
  captured : ByteArray := ByteArray.empty

namespace Serial

def bitCycles : Nat := 512

def captureLimit : Nat := 65536

def capture (bytes : ByteArray) (b : UInt8) : ByteArray :=
  if bytes.size = captureLimit then
    (bytes.extract (captureLimit / 2) captureLimit).push b
  else bytes.push b

def read (s : Serial) (address : UInt16) : UInt8 :=
  match address with
  | 0xFF01 => s.sb
  | 0xFF02 => s.sc ||| 0x7E
  | _ => 0xFF

/-- Whether a control byte starts a transfer on the internal clock. -/
def starts (control : UInt8) : Bool := control &&& 0x81 == 0x81

def writeControl (s : Serial) (v : UInt8) : Serial :=
  if starts v then
    { s with sc := v, captured := capture s.captured s.sb, bitsLeft := 8, counter := 0 }
  else { s with sc := v, bitsLeft := 0 }

def write (s : Serial) (address : UInt16) (v : UInt8) : Serial :=
  match address with
  | 0xFF01 => { s with sb := v }
  | 0xFF02 => s.writeControl v
  | _ => s

def shift (s : Serial) : Serial × Bool :=
  if s.bitsLeft = 1 then
    ({ s with sb := s.sb <<< 1 ||| 1, sc := s.sc &&& 0x7F, bitsLeft := 0, counter := 0 }, true)
  else
    ({ s with sb := s.sb <<< 1 ||| 1, bitsLeft := s.bitsLeft - 1, counter := 0 }, false)

/-- One cycle; the flag requests an interrupt. -/
def step (s : Serial) : Serial × Bool :=
  if s.bitsLeft = 0 then (s, false)
  else if s.counter + 1 < bitCycles then ({ s with counter := s.counter + 1 }, false)
  else s.shift

def takeCaptured (s : Serial) : ByteArray × Serial :=
  (s.captured, { s with captured := ByteArray.empty })

end Serial
end Handheld
