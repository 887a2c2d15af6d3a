import Handheld.Text.Hexadecimal

/-!
What can go wrong: with a cartridge image, with the program that runs, with the medium behind a
cartridge's memory, with the machine that hosts the emulation. `Fault.message` is the text shown.
-/

namespace Handheld

inductive Access where
  | read
  | write
  deriving DecidableEq, Repr

def Access.name : Access → String
  | .read => "read"
  | .write => "write"

inductive Fault where
  | headerTooShort (length : Nat)
  | unsupportedController (code : UInt8)
  | unmappedRegister (address : UInt16) (access : Access)
  | illegalOpcode (opcode : UInt8) (address : UInt16)
  | externalMemory (reason : String)
  | io (reason : String)
  | threadSpawn (reason : String)
  deriving DecidableEq, Repr

def Fault.message : Fault → String
  | .headerTooShort n => "ROM image is too short to contain a header (" ++ toString n ++ " bytes)"
  | .unsupportedController c => "unsupported cartridge controller type 0x" ++ Hexadecimal.byte c
  | .unmappedRegister a access =>
    "access to unmapped I/O register 0x" ++ Hexadecimal.word a ++ " (" ++ access.name ++ ")"
  | .illegalOpcode c a =>
    "illegal opcode 0x" ++ Hexadecimal.byte c ++ " at 0x" ++ Hexadecimal.word a
  | .externalMemory reason => "external memory backend failure: " ++ reason
  | .io reason => "I/O error: " ++ reason
  | .threadSpawn reason => "failed to spawn emulation thread: " ++ reason

end Handheld
