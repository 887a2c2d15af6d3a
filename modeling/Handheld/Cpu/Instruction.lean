import Handheld.Cpu.Operation
import Handheld.Text.Hexadecimal

/-!
Instructions: how one is read from memory, and how one is written as assembly text.
-/

namespace Handheld

/-- An operation with the bytes it was read from. -/
structure Instruction where
  address : UInt16
  operation : Operation
  /-- The opcode, after the byte that selects the second table where there is one. -/
  code : UInt8
  /-- The opcode is of the second table. -/
  selected : Bool
  /-- Operand bytes in order, zero where the operation has fewer. -/
  first : UInt8
  second : UInt8
  deriving DecidableEq, Repr

namespace Instruction

def selector : UInt8 := 0xCB

/-- Reads the instruction at an address. Only the bytes that belong to it are read, in order. -/
@[specialize]
def decodeWith {m : Type → Type} [Monad m] (read : UInt16 → m UInt8) (address : UInt16) :
    m Instruction := do
  let head ← read address
  let selected := head == selector
  let code ← if selected then read (address + 1) else pure head
  let operation := if selected then Operation.ofSelected code else Operation.ofCode code
  let next := if selected then address + 2 else address + 1
  let count := operation.immediate.length
  let first ← if 0 < count then read next else pure 0
  let second ← if 1 < count then read (next + 1) else pure 0
  return { address, operation, code, selected, first, second }

/-- The instruction at an address of a memory that a look does not change. -/
def decode (peek : UInt16 → UInt8) (address : UInt16) : Instruction :=
  Id.run (decodeWith peek address)

def length (i : Instruction) : Nat :=
  1 + i.selected.toNat + i.operation.immediate.length

def next (i : Instruction) : UInt16 := i.address + UInt16.ofNat i.length

def wordOperand (i : Instruction) : UInt16 := word i.second i.first

def relativeTarget (i : Instruction) : UInt16 := i.next + signExtend i.first

end Instruction

/-- The stand-in for operand bytes in the listing of an operation. -/
def Immediate.placeholder : Immediate → String
  | .none | .ignored => ""
  | .byte => "d8"
  | .highAddress => "a8"
  | .relative => "r8"
  | .offset => "e8"
  | .word => "d16"
  | .address => "a16"

def signedText (b : UInt8) : String :=
  if b < 0x80 then "+" ++ toString b.toNat else "-" ++ toString (256 - b.toNat)

namespace Operation

def branchText (stem : String) (on : Option Condition) (target : String) : String :=
  match on with
  | none => stem ++ " " ++ target
  | some c => stem ++ " " ++ c.name ++ "," ++ target

/-- The operation in assembly, with the given text for its operand bytes. -/
def text (imm : String) : Operation → String
  | .nop => "NOP"
  | .stop => "STOP"
  | .halt => "HALT"
  | .disableInterrupts => "DI"
  | .enableInterrupts => "EI"
  | .illegal code => "ILLEGAL_" ++ Hexadecimal.byte code
  | .select => "PREFIX CB"
  | .load dst src => "LD " ++ dst.name ++ "," ++ src.name
  | .loadImmediate dst => "LD " ++ dst.name ++ "," ++ imm
  | .loadPair dst => "LD " ++ dst.name ++ "," ++ imm
  | .storeA p => "LD " ++ p.name ++ ",A"
  | .loadA p => "LD A," ++ p.name
  | .storeAHigh => "LDH (" ++ imm ++ "),A"
  | .loadAHigh => "LDH A,(" ++ imm ++ ")"
  | .storeAHighC => "LD (C),A"
  | .loadAHighC => "LD A,(C)"
  | .storeAAbsolute => "LD (" ++ imm ++ "),A"
  | .loadAAbsolute => "LD A,(" ++ imm ++ ")"
  | .storeSP => "LD (" ++ imm ++ "),SP"
  | .loadSP => "LD SP,HL"
  | .loadHLSum => "LD HL,SP+" ++ imm
  | .push src => "PUSH " ++ src.name
  | .pop dst => "POP " ++ dst.name
  | .accumulate op src => op.stem ++ src.name
  | .accumulateImmediate op => op.stem ++ imm
  | .inc dst => "INC " ++ dst.name
  | .dec dst => "DEC " ++ dst.name
  | .incPair dst => "INC " ++ dst.name
  | .decPair dst => "DEC " ++ dst.name
  | .addPair src => "ADD HL," ++ src.name
  | .addSP => "ADD SP," ++ imm
  | .decimalAdjust => "DAA"
  | .complement => "CPL"
  | .setCarry => "SCF"
  | .complementCarry => "CCF"
  | .rotateA op => op.name ++ "A"
  | .jump on => branchText "JP" on imm
  | .jumpHL => "JP HL"
  | .jumpRelative on => branchText "JR" on imm
  | .call on => branchText "CALL" on imm
  | .ret none => "RET"
  | .ret (some c) => "RET " ++ c.name
  | .retInterrupt => "RETI"
  | .restart target => "RST " ++ Hexadecimal.byte target ++ "H"
  | .shift op dst => op.name ++ " " ++ dst.name
  | .testBit n src => "BIT " ++ toString n ++ "," ++ src.name
  | .resetBit n dst => "RES " ++ toString n ++ "," ++ dst.name
  | .setBit n dst => "SET " ++ toString n ++ "," ++ dst.name

def mnemonic (op : Operation) : String := op.text op.immediate.placeholder

end Operation

namespace Instruction

def immediateText (i : Instruction) : String :=
  match i.operation.immediate with
  | .none | .ignored => ""
  | .byte => "$" ++ Hexadecimal.byte i.first
  | .highAddress => "$FF" ++ Hexadecimal.byte i.first
  | .relative => "$" ++ Hexadecimal.word i.relativeTarget
  | .offset => signedText i.first
  | .word | .address => "$" ++ Hexadecimal.word i.wordOperand

def assembly (i : Instruction) : String := i.operation.text i.immediateText

def listing (i : Instruction) : String := Hexadecimal.word i.address ++ ": " ++ i.assembly

def cycles (i : Instruction) (taken : Bool) : Nat :=
  if taken then i.operation.cycles else i.operation.untakenCycles

end Instruction
end Handheld
