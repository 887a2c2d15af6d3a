import Handheld.Cpu.Arithmetic

/-!
What an opcode asks for, how many operand bytes follow it and how many cycles it takes. The bits of
an opcode are read as fields: bits 6 and 7 give the quarter of the table, bits 3 to 5 and 0 to 2
name operands.
-/

namespace Handheld

/-- The addresses that the indirect accumulator loads use. -/
inductive Pointer where
  | bc
  | de
  | hlIncrement
  | hlDecrement
  deriving DecidableEq, Repr

namespace Pointer

def ofField (n : Nat) : Pointer :=
  match n % 4 with
  | 0 => .bc
  | 1 => .de
  | 2 => .hlIncrement
  | _ => .hlDecrement

def name : Pointer → String
  | .bc => "(BC)"
  | .de => "(DE)"
  | .hlIncrement => "(HL+)"
  | .hlDecrement => "(HL-)"

end Pointer

/-- One operation. Where a branch has no condition it is always taken. -/
inductive Operation where
  | nop
  | stop
  | halt
  | disableInterrupts
  | enableInterrupts
  | illegal (code : UInt8)
  /-- The byte that selects the second table. -/
  | select
  | load (dst src : Operand)
  | loadImmediate (dst : Operand)
  | loadPair (dst : Pair)
  | storeA (pointer : Pointer)
  | loadA (pointer : Pointer)
  | storeAHigh
  | loadAHigh
  | storeAHighC
  | loadAHighC
  | storeAAbsolute
  | loadAAbsolute
  | storeSP
  | loadSP
  | loadHLSum
  | push (src : StackPair)
  | pop (dst : StackPair)
  | accumulate (op : AluOp) (src : Operand)
  | accumulateImmediate (op : AluOp)
  | inc (dst : Operand)
  | dec (dst : Operand)
  | incPair (dst : Pair)
  | decPair (dst : Pair)
  | addPair (src : Pair)
  | addSP
  | decimalAdjust
  | complement
  | setCarry
  | complementCarry
  | rotateA (op : ShiftOp)
  | jump (on : Option Condition)
  | jumpHL
  | jumpRelative (on : Option Condition)
  | call (on : Option Condition)
  | ret (on : Option Condition)
  | retInterrupt
  | restart (target : UInt8)
  | shift (op : ShiftOp) (dst : Operand)
  | testBit (n : Nat) (src : Operand)
  | resetBit (n : Nat) (dst : Operand)
  | setBit (n : Nat) (dst : Operand)
  deriving DecidableEq, Repr

/-- The operand bytes of an instruction and what they stand for. -/
inductive Immediate where
  | none
  | ignored
  | byte
  /-- The low byte of an address in the top page. -/
  | highAddress
  /-- A signed distance from the next instruction. -/
  | relative
  /-- A signed offset to the stack pointer. -/
  | offset
  | word
  | address
  deriving DecidableEq, Repr

def Immediate.length : Immediate → Nat
  | .none => 0
  | .ignored | .byte | .highAddress | .relative | .offset => 1
  | .word | .address => 2

namespace Operation

def ofFirstQuarter (y z : Nat) : Operation :=
  match z with
  | 0 =>
    match y with
    | 0 => .nop
    | 1 => .storeSP
    | 2 => .stop
    | 3 => .jumpRelative none
    | y => .jumpRelative (some (.ofField y))
  | 1 => if y % 2 = 0 then .loadPair (.ofField (y / 2)) else .addPair (.ofField (y / 2))
  | 2 => if y % 2 = 0 then .storeA (.ofField (y / 2)) else .loadA (.ofField (y / 2))
  | 3 => if y % 2 = 0 then .incPair (.ofField (y / 2)) else .decPair (.ofField (y / 2))
  | 4 => .inc (.ofField y)
  | 5 => .dec (.ofField y)
  | 6 => .loadImmediate (.ofField y)
  | _ =>
    match y with
    | 4 => .decimalAdjust
    | 5 => .complement
    | 6 => .setCarry
    | 7 => .complementCarry
    | y => .rotateA (.ofField y)

def ofLastQuarter (code : UInt8) (y z : Nat) : Operation :=
  match z with
  | 0 =>
    match y with
    | 4 => .storeAHigh
    | 5 => .addSP
    | 6 => .loadAHigh
    | 7 => .loadHLSum
    | y => .ret (some (.ofField y))
  | 1 =>
    match y with
    | 1 => .ret none
    | 3 => .retInterrupt
    | 5 => .jumpHL
    | 7 => .loadSP
    | y => .pop (.ofField (y / 2))
  | 2 =>
    match y with
    | 4 => .storeAHighC
    | 5 => .storeAAbsolute
    | 6 => .loadAHighC
    | 7 => .loadAAbsolute
    | y => .jump (some (.ofField y))
  | 3 =>
    match y with
    | 0 => .jump none
    | 1 => .select
    | 6 => .disableInterrupts
    | 7 => .enableInterrupts
    | _ => .illegal code
  | 4 => if y < 4 then .call (some (.ofField y)) else .illegal code
  | 5 =>
    if y % 2 = 0 then .push (.ofField (y / 2))
    else if y = 1 then .call none
    else .illegal code
  | 6 => .accumulateImmediate (.ofField y)
  | _ => .restart (UInt8.ofNat (8 * y))

def ofCode (code : UInt8) : Operation :=
  let n := code.toNat
  let y := n / 8 % 8
  let z := n % 8
  match n / 64 with
  | 0 => ofFirstQuarter y z
  | 1 => if n = 0x76 then .halt else .load (.ofField y) (.ofField z)
  | 2 => .accumulate (.ofField y) (.ofField z)
  | _ => ofLastQuarter code y z

def ofSelected (code : UInt8) : Operation :=
  let n := code.toNat
  let y := n / 8 % 8
  let z := .ofField (n % 8)
  match n / 64 with
  | 0 => .shift (.ofField y) z
  | 1 => .testBit y z
  | 2 => .resetBit y z
  | _ => .setBit y z

def immediate : Operation → Immediate
  | .stop => .ignored
  | .loadImmediate _ | .accumulateImmediate _ => .byte
  | .loadPair _ => .word
  | .storeAHigh | .loadAHigh => .highAddress
  | .storeAAbsolute | .loadAAbsolute | .storeSP | .jump _ | .call _ => .address
  | .loadHLSum | .addSP => .offset
  | .jumpRelative _ => .relative
  | _ => .none

def memoryCost (touches : Nat) : Operand → Nat
  | .register _ => 0
  | .atHL => 4 * touches

def cycles : Operation → Nat
  | .nop | .stop | .halt | .disableInterrupts | .enableInterrupts | .illegal _ | .select => 4
  | .decimalAdjust | .complement | .setCarry | .complementCarry | .rotateA _ | .jumpHL => 4
  | .load dst src => 4 + memoryCost 1 dst + memoryCost 1 src
  | .loadImmediate dst => 8 + memoryCost 1 dst
  | .loadPair _ => 12
  | .storeA _ | .loadA _ | .storeAHighC | .loadAHighC | .loadSP => 8
  | .storeAHigh | .loadAHigh | .loadHLSum => 12
  | .storeAAbsolute | .loadAAbsolute => 16
  | .storeSP => 20
  | .push _ => 16
  | .pop _ => 12
  | .accumulate _ src => 4 + memoryCost 1 src
  | .accumulateImmediate _ => 8
  | .inc dst | .dec dst => 4 + memoryCost 2 dst
  | .incPair _ | .decPair _ | .addPair _ => 8
  | .addSP => 16
  | .jump _ => 16
  | .jumpRelative _ => 12
  | .call _ => 24
  | .ret none => 16
  | .ret (some _) => 20
  | .retInterrupt | .restart _ => 16
  | .shift _ dst | .resetBit _ dst | .setBit _ dst => 8 + memoryCost 2 dst
  | .testBit _ src => 8 + memoryCost 1 src

def untakenCycles : Operation → Nat
  | .jump (some _) | .call (some _) => 12
  | .jumpRelative (some _) | .ret (some _) => 8
  | op => op.cycles

end Operation
end Handheld
