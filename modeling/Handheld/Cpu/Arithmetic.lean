import Handheld.Cpu.Registers

/-!
The arithmetic of the processor: each operation gives its result with the flags it leaves.
-/

namespace Handheld

inductive AluOp where
  | add
  | addCarry
  | sub
  | subCarry
  | and
  | xor
  | or
  | compare
  deriving DecidableEq, Repr

namespace AluOp

def ofField (n : Nat) : AluOp :=
  match n % 8 with
  | 0 => .add
  | 1 => .addCarry
  | 2 => .sub
  | 3 => .subCarry
  | 4 => .and
  | 5 => .xor
  | 6 => .or
  | _ => .compare

def stem : AluOp → String
  | .add => "ADD A,"
  | .addCarry => "ADC A,"
  | .sub => "SUB "
  | .subCarry => "SBC A,"
  | .and => "AND "
  | .xor => "XOR "
  | .or => "OR "
  | .compare => "CP "

end AluOp

inductive ShiftOp where
  | rotateLeft
  | rotateRight
  | rotateLeftCarry
  | rotateRightCarry
  | shiftLeft
  | shiftRightSigned
  | swap
  | shiftRight
  deriving DecidableEq, Repr

namespace ShiftOp

def ofField (n : Nat) : ShiftOp :=
  match n % 8 with
  | 0 => .rotateLeft
  | 1 => .rotateRight
  | 2 => .rotateLeftCarry
  | 3 => .rotateRightCarry
  | 4 => .shiftLeft
  | 5 => .shiftRightSigned
  | 6 => .swap
  | _ => .shiftRight

def name : ShiftOp → String
  | .rotateLeft => "RLC"
  | .rotateRight => "RRC"
  | .rotateLeftCarry => "RL"
  | .rotateRightCarry => "RR"
  | .shiftLeft => "SLA"
  | .shiftRightSigned => "SRA"
  | .swap => "SWAP"
  | .shiftRight => "SRL"

end ShiftOp

namespace Alu

def add (a b : UInt8) (carry : Bool) : UInt8 × Flags :=
  let sum := a.toNat + b.toNat + carry.toNat
  let res := UInt8.ofNat sum
  (res, ⟨res == 0, false, 15 < a.toNat % 16 + b.toNat % 16 + carry.toNat, 255 < sum⟩)

def sub (a b : UInt8) (borrow : Bool) : UInt8 × Flags :=
  let res := a - b - borrow.toUInt8
  (res, ⟨res == 0, true, a.toNat % 16 < b.toNat % 16 + borrow.toNat,
    a.toNat < b.toNat + borrow.toNat⟩)

def and (a b : UInt8) : UInt8 × Flags := (a &&& b, ⟨a &&& b == 0, false, true, false⟩)

def xor (a b : UInt8) : UInt8 × Flags := (a ^^^ b, ⟨a ^^^ b == 0, false, false, false⟩)

def or (a b : UInt8) : UInt8 × Flags := (a ||| b, ⟨a ||| b == 0, false, false, false⟩)

/-- What the accumulator `a` becomes. A comparison is a subtraction that keeps only the flags. -/
def accumulate (op : AluOp) (a v : UInt8) (carry : Bool) : UInt8 × Flags :=
  match op with
  | .add => add a v false
  | .addCarry => add a v carry
  | .sub => sub a v false
  | .subCarry => sub a v carry
  | .and => and a v
  | .xor => xor a v
  | .or => or a v
  | .compare => (a, (sub a v false).2)

def inc (v : UInt8) (carry : Bool) : UInt8 × Flags :=
  let res := v + 1
  (res, ⟨res == 0, false, v &&& 0x0F == 0x0F, carry⟩)

def dec (v : UInt8) (carry : Bool) : UInt8 × Flags :=
  let res := v - 1
  (res, ⟨res == 0, true, v &&& 0x0F == 0, carry⟩)

/-- Sum of words: the carries are those out of bits 11 and 15, and the zero flag is kept. -/
def addWords (a b : UInt16) (zero : Bool) : UInt16 × Flags :=
  (a + b, ⟨zero, false, 0x0FFF < a.toNat % 0x1000 + b.toNat % 0x1000, 0xFFFF < a.toNat + b.toNat⟩)

/-- The stack pointer moved by a signed byte, with the flags of the unsigned sum of low bytes. -/
def addSigned (sp : UInt16) (offset : UInt8) : UInt16 × Flags :=
  (sp + signExtend offset,
    ⟨false, false, 15 < sp.toNat % 16 + offset.toNat % 16, 255 < sp.toNat % 256 + offset.toNat⟩)

/-- Turns a sum or difference of packed decimal numbers into packed decimal. -/
def decimalAdjust (a : UInt8) (f : Flags) : UInt8 × Flags :=
  if f.subtract then
    let a := if f.carry then a - 0x60 else a
    let a := if f.half then a - 0x06 else a
    (a, ⟨a == 0, true, false, f.carry⟩)
  else
    let carry := f.carry || a > 0x99
    let a := if carry then a + 0x60 else a
    let a := if f.half || a &&& 0x0F > 0x09 then a + 0x06 else a
    (a, ⟨a == 0, false, false, carry⟩)

def shift (op : ShiftOp) (v : UInt8) (carry : Bool) : UInt8 × Flags :=
  let top := v &&& 0x80 != 0
  let bottom := v &&& 0x01 != 0
  let (res, out) :=
    match op with
    | .rotateLeft => (v <<< 1 ||| v >>> 7, top)
    | .rotateRight => (v >>> 1 ||| v <<< 7, bottom)
    | .rotateLeftCarry => (v <<< 1 ||| carry.toUInt8, top)
    | .rotateRightCarry => (v >>> 1 ||| carry.toUInt8 <<< 7, bottom)
    | .shiftLeft => (v <<< 1, top)
    | .shiftRightSigned => (v >>> 1 ||| v &&& 0x80, bottom)
    | .swap => (v <<< 4 ||| v >>> 4, false)
    | .shiftRight => (v >>> 1, bottom)
  (res, ⟨res == 0, false, false, out⟩)

def bitMask (n : Nat) : UInt8 := 1 <<< UInt8.ofNat (n % 8)

def bitTest (n : Nat) (v : UInt8) (carry : Bool) : Flags :=
  ⟨v &&& bitMask n == 0, false, true, carry⟩

end Alu

namespace Registers

def accumulate (r : Registers) (op : AluOp) (v : UInt8) : Registers :=
  let (res, flags) := Alu.accumulate op r.a v r.flags.carry
  { r with a := res }.setFlags flags

def decimalAdjust (r : Registers) : Registers :=
  let (res, flags) := Alu.decimalAdjust r.a r.flags
  { r with a := res }.setFlags flags

def complement (r : Registers) : Registers :=
  { r with a := ~~~r.a, f := r.f ||| (Flags.subtractMask ||| Flags.halfMask) }

def setCarry (r : Registers) : Registers := r.setFlags ⟨r.flags.zero, false, false, true⟩

def complementCarry (r : Registers) : Registers :=
  r.setFlags ⟨r.flags.zero, false, false, !r.flags.carry⟩

/-- A shift of the accumulator by its one-byte form, which always clears the zero flag. -/
def rotateA (r : Registers) (op : ShiftOp) : Registers :=
  let (res, flags) := Alu.shift op r.a r.flags.carry
  { r with a := res }.setFlags { flags with zero := false }

end Registers
end Handheld
