import Handheld.Cli.Arguments
import Handheld.Libraries.Toml.Scalars
import Handheld.Text.Address

/-!
A stand-in for the library that reads the command line of the program.
-/

namespace Handheld.CommandLine

def once {α : Type} (old : Option α) (new : Option α) : Option (Option α) :=
  match old, new with
  | none, some v => some (some v)
  | _, _ => none

def number? (s : String) : Option Nat :=
  let digits := Address.dropSign s.toList
  if digits.isEmpty || !digits.all Toml.isDigit then none
  else
    let n := Toml.decimalValue digits
    if n < 1 <<< 64 then some n else none

def path? (s : String) : Option String := if s.isEmpty then none else some s

def setSwitch (a : Arguments) (name : String) : Option Arguments :=
  match name with
  | "dmg" => if a.monochrome then none else some { a with monochrome := true }
  | "cgb" => if a.color then none else some { a with color := true }
  | "serial" => if a.serial then none else some { a with serial := true }
  | "unlimited" => if a.unlimited then none else some { a with unlimited := true }
  | "break-on-fault" => if a.breakOnFault then none else some { a with breakOnFault := true }
  | "audio" => if a.audio then none else some { a with audio := true }
  | "write-config" => if a.writeConfig then none else some { a with writeConfig := true }
  | _ => none

def takesValue (name : String) : Bool :=
  ["config", "frames", "seconds", "screenshot", "break", "save"].contains name

/-- Sets an option to its value. Only an address to stop at may be given more than once. -/
def setValue (address? : String → Option UInt16) (a : Arguments) (name value : String) :
    Option Arguments :=
  match name with
  | "config" => (once a.config (path? value)).map fun config => { a with config }
  | "frames" => (once a.frames (number? value)).map fun frames => { a with frames }
  | "seconds" => (once a.seconds (number? value)).map fun seconds => { a with seconds }
  | "screenshot" => (once a.screenshot (path? value)).map fun screenshot => { a with screenshot }
  | "break" => (address? value).map fun b => { a with breakpoints := a.breakpoints ++ [b] }
  | "save" => (once a.save (path? value)).map fun save => { a with save }
  | _ => none

def setRom (a : Arguments) (value : String) : Option Arguments :=
  (once a.rom (path? value)).map fun rom => { a with rom }

inductive Word where
  /-- Two dashes alone: all after them are plain. -/
  | separator
  | option (name : String)
  | optionValue (name value : String)
  | help
  | version
  /-- Letters after one dash that name nothing. -/
  | unknown
  | plain (s : String)
  deriving DecidableEq, Repr

def splitValue (cs : List Char) : Word :=
  match cs.span (· != '=') with
  | (name, _ :: value) => .optionValue (String.ofList name) (String.ofList value)
  | (name, []) => .option (String.ofList name)

def Word.of (s : String) : Word :=
  match s.toList with
  | ['-', '-'] => .separator
  | '-' :: '-' :: rest =>
    match splitValue rest with
    | .option "help" => .help
    | .option "version" => .version
    | w => w
  | '-' :: 'h' :: _ => .help
  | '-' :: 'V' :: _ => .version
  | '-' :: _ :: _ => .unknown
  | _ => .plain s

def isValue (s : String) : Bool :=
  match Word.of s with
  | .plain _ => true
  | _ => false

def takePlain (a : Arguments) : List String → Option Arguments
  | [] => some a
  | s :: rest => (setRom a s).bind (takePlain · rest)

def finish (a : Arguments) : Request :=
  if a.rom.isNone || (a.monochrome && a.color) then .refused else .run a

def orRefused (a : Option Arguments) (next : Arguments → Request) : Request :=
  match a with
  | some a => next a
  | none => .refused

def read (address? : String → Option UInt16) (a : Arguments) : List String → Request
  | [] => finish a
  | s :: rest =>
    match Word.of s with
    | .separator => orRefused (takePlain a rest) finish
    | .help => .help
    | .version => .version
    | .unknown => .refused
    | .plain s => orRefused (setRom a s) (read address? · rest)
    | .optionValue name value =>
      orRefused (setValue address? a name value) (read address? · rest)
    | .option name =>
      if takesValue name then
        match rest with
        | value :: rest =>
          if isValue value then orRefused (setValue address? a name value) (read address? · rest)
          else .refused
        | [] => .refused
      else orRefused (setSwitch a name) (read address? · rest)

def usage : String :=
  "Usage: dotmatrix [OPTIONS] <ROM>\n\n" ++
  "Options:\n" ++
  "  --config <FILE>      settings file\n" ++
  "  --dmg                force the monochrome model\n" ++
  "  --cgb                force the color model\n" ++
  "  --frames <N>         frames to run\n" ++
  "  --seconds <N>        time limit\n" ++
  "  --screenshot <FILE>  write the last frame\n" ++
  "  --serial             print the serial output\n" ++
  "  --unlimited          run without frame pacing\n" ++
  "  --break-on-fault     stop at a fault\n" ++
  "  --break <ADDR>       stop at an address\n" ++
  "  --save <FILE>        save file\n" ++
  "  --audio              print the peak level of each channel\n" ++
  "  --write-config       write the settings and stop\n" ++
  "  --help, --version\n"

def version : String := "dotmatrix-cli 0.1.0\n"

def library : CommandLibrary where
  parse address? words := read address? {} words
  usage := usage
  version := version

end Handheld.CommandLine
