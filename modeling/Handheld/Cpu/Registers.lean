import Handheld.Hardware

/-!
The registers of the processor, its flags and the names by which an instruction refers to them.
The sixteen-bit pairs are views of their halves, and F holds the four flags in its upper half.
-/

namespace Handheld

structure Flags where
  zero : Bool
  subtract : Bool
  half : Bool
  carry : Bool
  deriving DecidableEq, Repr

namespace Flags

def zeroMask : UInt8 := 0x80
def subtractMask : UInt8 := 0x40
def halfMask : UInt8 := 0x20
def carryMask : UInt8 := 0x10

def toByte (f : Flags) : UInt8 :=
  (if f.zero then zeroMask else 0) ||| (if f.subtract then subtractMask else 0) |||
    (if f.half then halfMask else 0) ||| (if f.carry then carryMask else 0)

def ofByte (b : UInt8) : Flags where
  zero := b &&& zeroMask != 0
  subtract := b &&& subtractMask != 0
  half := b &&& halfMask != 0
  carry := b &&& carryMask != 0

theorem ofByte_toByte (f : Flags) : ofByte f.toByte = f := by
  obtain ⟨z, n, h, c⟩ := f
  cases z <;> cases n <;> cases h <;> cases c <;> decide

end Flags

inductive Register where
  | b
  | c
  | d
  | e
  | h
  | l
  | a
  deriving DecidableEq, Repr

def Register.name : Register → String
  | .b => "B"
  | .c => "C"
  | .d => "D"
  | .e => "E"
  | .h => "H"
  | .l => "L"
  | .a => "A"

/-- An eight-bit operand: a register, or the byte that HL points at. -/
inductive Operand where
  | register (r : Register)
  | atHL
  deriving DecidableEq, Repr

namespace Operand

def ofField (n : Nat) : Operand :=
  match n % 8 with
  | 0 => .register .b
  | 1 => .register .c
  | 2 => .register .d
  | 3 => .register .e
  | 4 => .register .h
  | 5 => .register .l
  | 6 => .atHL
  | _ => .register .a

def name : Operand → String
  | .register r => r.name
  | .atHL => "(HL)"

end Operand

inductive Pair where
  | bc
  | de
  | hl
  | sp
  deriving DecidableEq, Repr

namespace Pair

def ofField (n : Nat) : Pair :=
  match n % 4 with
  | 0 => .bc
  | 1 => .de
  | 2 => .hl
  | _ => .sp

def name : Pair → String
  | .bc => "BC"
  | .de => "DE"
  | .hl => "HL"
  | .sp => "SP"

end Pair

/-- What PUSH and POP move: here the last field value names AF. -/
inductive StackPair where
  | bc
  | de
  | hl
  | af
  deriving DecidableEq, Repr

namespace StackPair

def ofField (n : Nat) : StackPair :=
  match n % 4 with
  | 0 => .bc
  | 1 => .de
  | 2 => .hl
  | _ => .af

def name : StackPair → String
  | .bc => "BC"
  | .de => "DE"
  | .hl => "HL"
  | .af => "AF"

end StackPair

inductive Condition where
  | nonzero
  | zero
  | noCarry
  | carry
  deriving DecidableEq, Repr

namespace Condition

def ofField (n : Nat) : Condition :=
  match n % 4 with
  | 0 => .nonzero
  | 1 => .zero
  | 2 => .noCarry
  | _ => .carry

def name : Condition → String
  | .nonzero => "NZ"
  | .zero => "Z"
  | .noCarry => "NC"
  | .carry => "C"

def holds (f : Flags) : Condition → Bool
  | .nonzero => !f.zero
  | .zero => f.zero
  | .noCarry => !f.carry
  | .carry => f.carry

end Condition

def word (high low : UInt8) : UInt16 := (high.toUInt16 <<< 8) ||| low.toUInt16

def highByte (w : UInt16) : UInt8 := (w >>> 8).toUInt8

def lowByte (w : UInt16) : UInt8 := w.toUInt8

theorem word_highByte_lowByte (w : UInt16) : word (highByte w) (lowByte w) = w := by
  apply UInt16.toNat_inj.mp
  have hlow : (lowByte w).toUInt16.toNat = w.toNat % 2 ^ 8 := by simp [lowByte]
  have hhigh : ((highByte w).toUInt16 <<< 8).toNat = (w.toNat / 2 ^ 8) <<< 8 := by
    have hlt := w.toNat_lt
    simp [highByte, Nat.shiftRight_eq_div_pow, Nat.shiftLeft_eq]
    omega
  rw [word, UInt16.toNat_or, hlow, hhigh,
    ← Nat.shiftLeft_add_eq_or_of_lt (Nat.mod_lt _ (by decide)), Nat.shiftLeft_eq]
  omega

def signExtend (b : UInt8) : UInt16 := if b < 0x80 then b.toUInt16 else 0xFF00 ||| b.toUInt16

structure Registers where
  a : UInt8 := 0
  f : UInt8 := 0
  b : UInt8 := 0
  c : UInt8 := 0
  d : UInt8 := 0
  e : UInt8 := 0
  h : UInt8 := 0
  l : UInt8 := 0
  pc : UInt16 := 0
  sp : UInt16 := 0
  /-- Interrupts may be dispatched. -/
  ime : Bool := false
  /-- EI was executed; `ime` is set after the next instruction. -/
  imePending : Bool := false
  deriving DecidableEq, Repr

namespace Registers

def af (r : Registers) : UInt16 := word r.a r.f
def bc (r : Registers) : UInt16 := word r.b r.c
def de (r : Registers) : UInt16 := word r.d r.e
def hl (r : Registers) : UInt16 := word r.h r.l

def setAF (r : Registers) (w : UInt16) : Registers :=
  { r with a := highByte w, f := lowByte w &&& 0xF0 }

def setBC (r : Registers) (w : UInt16) : Registers := { r with b := highByte w, c := lowByte w }
def setDE (r : Registers) (w : UInt16) : Registers := { r with d := highByte w, e := lowByte w }
def setHL (r : Registers) (w : UInt16) : Registers := { r with h := highByte w, l := lowByte w }

def get (r : Registers) : Register → UInt8
  | .b => r.b
  | .c => r.c
  | .d => r.d
  | .e => r.e
  | .h => r.h
  | .l => r.l
  | .a => r.a

def set (r : Registers) (x : Register) (v : UInt8) : Registers :=
  match x with
  | .b => { r with b := v }
  | .c => { r with c := v }
  | .d => { r with d := v }
  | .e => { r with e := v }
  | .h => { r with h := v }
  | .l => { r with l := v }
  | .a => { r with a := v }

theorem get_set (r : Registers) (x y : Register) (v : UInt8) :
    (r.set x v).get y = if x = y then v else r.get y := by
  cases x <;> cases y <;> rfl

def pair (r : Registers) : Pair → UInt16
  | .bc => r.bc
  | .de => r.de
  | .hl => r.hl
  | .sp => r.sp

def setPair (r : Registers) (p : Pair) (w : UInt16) : Registers :=
  match p with
  | .bc => r.setBC w
  | .de => r.setDE w
  | .hl => r.setHL w
  | .sp => { r with sp := w }

def stackPair (r : Registers) : StackPair → UInt16
  | .bc => r.bc
  | .de => r.de
  | .hl => r.hl
  | .af => r.af

def setStackPair (r : Registers) (p : StackPair) (w : UInt16) : Registers :=
  match p with
  | .bc => r.setBC w
  | .de => r.setDE w
  | .hl => r.setHL w
  | .af => r.setAF w

def flags (r : Registers) : Flags := .ofByte r.f

def setFlags (r : Registers) (f : Flags) : Registers := { r with f := f.toByte }

def flag (r : Registers) (mask : UInt8) : Bool := r.f &&& mask != 0

def setFlag (r : Registers) (mask : UInt8) (on : Bool) : Registers :=
  { r with f := if on then r.f ||| mask else r.f &&& ~~~mask }

/-- The register that a three-bit field names; the field of memory reads as all ones. -/
def field (r : Registers) (n : Nat) : UInt8 :=
  match Operand.ofField n with
  | .register x => r.get x
  | .atHL => 0xFF

def setField (r : Registers) (n : Nat) (v : UInt8) : Registers :=
  match Operand.ofField n with
  | .register x => r.set x v
  | .atHL => r

def postBoot (model : Model) : Registers :=
  let r : Registers := { pc := 0x0100, sp := 0xFFFE }
  match model with
  | .monochrome => (((r.setAF 0x01B0).setBC 0x0013).setDE 0x00D8).setHL 0x014D
  | .color => (((r.setAF 0x1180).setBC 0x0000).setDE 0xFF56).setHL 0x000D

end Registers
end Handheld
