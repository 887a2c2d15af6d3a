import Handheld.Cpu.Core

/-!
The table entry of an operation in words, registers by the names that are used for them at a
debugger, where all are numbers, and tests of a register's value for a breakpoint to depend on.
-/

namespace Handheld

def Operation.summary (op : Operation) : String :=
  "Opcode \x7b mnemonic: \"" ++ op.mnemonic ++ "\", operand_len: "
    ++ toString op.immediate.length ++ ", cycles: " ++ toString op.cycles
    ++ ", cycles_untaken: " ++ toString op.untakenCycles ++ " \x7d"

/-- How a register is read and set as a number, which is cut to its width. -/
structure RegisterView where
  get : Registers → Nat
  set : Registers → Nat → Registers

namespace RegisterView

def byte (get : Registers → UInt8) (set : Registers → UInt8 → Registers) : RegisterView where
  get r := (get r).toNat
  set r n := set r (UInt8.ofNat n)

def word (get : Registers → UInt16) (set : Registers → UInt16 → Registers) : RegisterView where
  get r := (get r).toNat
  set r n := set r (UInt16.ofNat n)

def switch (get : Registers → Bool) (set : Registers → Bool → Registers) : RegisterView where
  get r := (get r).toNat
  set r n := set r (n != 0)

def named : List (String × RegisterView) :=
  [("a", byte (·.a) ({ · with a := · })), ("f", byte (·.f) ({ · with f := · })),
    ("b", byte (·.b) ({ · with b := · })), ("c", byte (·.c) ({ · with c := · })),
    ("d", byte (·.d) ({ · with d := · })), ("e", byte (·.e) ({ · with e := · })),
    ("h", byte (·.h) ({ · with h := · })), ("l", byte (·.l) ({ · with l := · })),
    ("af", word (·.af) (·.setAF ·)), ("bc", word (·.bc) (·.setBC ·)),
    ("de", word (·.de) (·.setDE ·)), ("hl", word (·.hl) (·.setHL ·)),
    ("sp", word (·.sp) ({ · with sp := · })), ("pc", word (·.pc) ({ · with pc := · })),
    ("ime", switch (·.ime) ({ · with ime := · })),
    ("ime_pending", switch (·.imePending) ({ · with imePending := · }))]

end RegisterView

namespace Registers

def value? (r : Registers) (name : String) : Option Nat :=
  (RegisterView.named.lookup name).map (·.get r)

def assign (r : Registers) (name : String) (n : Nat) : Registers :=
  match RegisterView.named.lookup name with
  | some v => v.set r n
  | none => r

end Registers

def Cpu.assign (c : Cpu) (name : String) (n : Nat) : Cpu :=
  match name with
  | "halted" => { c with halted := n != 0 }
  | "stopped" => { c with stopped := n != 0 }
  | "locked" => { c with locked := n != 0 }
  | _ => { c with registers := c.registers.assign name n }

inductive Comparison where
  | equal
  | different
  | below
  | above
  deriving DecidableEq, Repr

namespace Comparison

def ofSymbol? (s : String) : Option Comparison :=
  [("==", .equal), ("!=", .different), ("<", .below), (">", .above)].lookup s

def holds (a b : Nat) : Comparison → Bool
  | .equal => a == b
  | .different => a != b
  | .below => a < b
  | .above => b < a

end Comparison

def Registers.test (r : Registers) (name : String) (c : Comparison) (n : Nat) : Bool :=
  match r.value? name with
  | some v => c.holds v n
  | none => false

end Handheld
