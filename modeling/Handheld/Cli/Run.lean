import Handheld.Cli.Arguments
import Handheld.Cli.Host
import Handheld.Headless
import Handheld.Text.Address
import Handheld.Text.FixedPlaces

/-!
The command line program: it loads settings and a cartridge, runs the machine without a screen and
reports. It is written over any `Host`, and over libraries for its settings and its arguments.
-/

namespace Handheld

inductive Complaint where
  | system (reason : String)
  /-- A path has the character that ends one. -/
  | unusablePath
  /-- A time limit lies where no clock gets. -/
  | beyondClock
  | fault (f : Fault)
  /-- The run paused on a fault of the machine. -/
  | machineFault (f : Fault)
  deriving DecidableEq, Repr

namespace Complaint

def message : Complaint → String
  | .system reason => reason
  | .unusablePath => "file name contained an unexpected NUL byte"
  | .beyondClock => "overflow when adding duration to instant"
  | .fault f => f.message
  | .machineFault f => "machine fault: " ++ f.message

end Complaint

inductive Ending where
  | done
  | complained (c : Complaint)
  /-- The command line made no sense. -/
  | misused
  /-- The program broke off without a report. -/
  | brokenOff (c : Complaint)
  deriving DecidableEq, Repr

namespace Ending

def exitCode : Ending → UInt8
  | .done => 0
  | .complained _ => 1
  | .misused => 2
  | .brokenOff _ => 101

end Ending

namespace Cli

/-- Memory behind the cartridge: a file for one with a battery. -/
abbrev Storage := VolatileRam ⊕ SaveFile

variable {m : Type → Type} [Monad m] [Host m] {V : Type} (library : DocumentLibrary V)

/-- A step of the program, which may end it with a complaint. -/
abbrev Action (m : Type → Type) := ExceptT Complaint m

def checked (reason : m (Option String)) : Action m Unit := do
  match ← (reason : m (Option String)) with
  | some reason => throw (.system reason)
  | none => pure ()

def print (text : String) : Action m Unit := (Host.print text.toUTF8 : m Unit)

/-- The place of the settings below the directory of a user's settings. -/
def settingsName : String := "dotmatrix/dotmatrix.toml"

def defaultSettingsPath : m String := do
  match ← Host.environment? "XDG_CONFIG_HOME" with
  | some directory => return joinPath directory settingsName
  | none =>
    match ← Host.environment? "HOME" with
    | some home => return joinPath (joinPath home ".config") settingsName
    | none => return "dotmatrix.toml"

def settingsPath (a : Arguments) : m String :=
  match a.config with
  | some path => pure path
  | none => defaultSettingsPath

def textOf (r : FileRead) : Option String := r.bytes?.bind String.fromUTF8?

def storeSettings (path : String) (s : ProgramSettings) : Action m Unit := do
  checked (m := m) (Host.makeWay path)
  match library.writeSettings s with
  | .ok text => checked (m := m) (Host.writeFile path text.toUTF8)
  | .error reason => throw (.system reason)

def mediumOf : FileRead → Medium
  | .contents bytes => .file bytes
  | .missing _ => .missing
  | .refused _ => .directory

def storageFor (h : Header) (path : String) : m Storage := do
  if h.kind.battery then
    let r ← Host.readFile path
    return .inr { medium := mediumOf r }
  else return .inl {}

def storeSave (path : String) (storage : Storage) : Action m Unit := do
  match storage with
  | .inl _ => pure ()
  | .inr save =>
    match save.unsaved? with
    | none => pure ()
    | some bytes =>
      match ← (Host.writeFile path bytes : m (Option String)) with
      | some reason => throw (.fault (.io reason))
      | none => pure ()

def outcomeLine {σ : Type} (r : RunReport σ) : String :=
  r.outcome.describe ++ " after " ++ toString r.frames ++ " frames, pc=" ++
    Hexadecimal.word r.machine.core.cpu.registers.pc ++ "\n"

def peakLines (p : Peaks) : String :=
  String.join (Channel.all.map fun c =>
    c.name ++ ": peak " ++ FixedPlaces.ofFloat32 3 (p.get c) ++ "\n")

/-- The last frame is stored if one was delivered. Only a path from the settings may turn out
unusable, because a word of a command line has no such character. -/
def storeFrame (path : Option String) (frame : Option Picture) : Action m Unit :=
  match path, frame with
  | some path, some picture =>
    if path.contains '\x00' then throw .unusablePath
    else checked (m := m) (Host.writePicture path picture)
  | _, _ => pure ()

def present (s : RunSettings) (r : RunReport Storage) : Action m Unit := do
  print (m := m) (outcomeLine r)
  storeFrame (m := m) s.screenshot r.lastFrame
  if s.serial && !r.serial.isEmpty then
    (Host.print (r.serial.push 0x0A) : m Unit)
  match r.peaks with
  | some p => print (m := m) (peakLines p)
  | none => pure ()

def complain : RunOutcome → Action m Unit
  | .paused _ (.fault f) => throw (.machineFault f)
  | _ => pure ()

def optionsOf (a : Arguments) (s : RunSettings) : RunOptions where
  frames := s.frames
  milliseconds := s.timeoutSeconds * 1000
  breakpoints := a.breakpoints
  meters := s.audioReport

/-- The seconds from which on a time limit lies beyond the clock, which counts them in 63 bits and
has been running for some hours. -/
def clockLimit : Nat := 1 <<< 63 - 1 <<< 16

def orComplain {α : Type} : Except Fault α → Action m α
  | .ok a => pure a
  | .error f => throw (.fault f)

def runImage (a : Arguments) (s : ProgramSettings) (rom : ByteArray) : Action m Unit := do
  let header ← orComplain (m := m) (Header.parse rom)
  let path := a.save.getD (withExtension (a.rom.getD "") "sav")
  let storage ← (storageFor header path : m Storage)
  let cartridge ← orComplain (m := m) (Cartridge.create rom storage)
  if clockLimit ≤ s.run.timeoutSeconds then throw .beyondClock
  let r := Headless.run (Machine.create cartridge s.machine) (optionsOf a s.run)
  present (m := m) s.run r
  storeSave (m := m) path r.machine.intoCartridge.storage
  complain (m := m) r.outcome

def perform (a : Arguments) : Action m Unit := do
  let path ← (settingsPath a : m String)
  let stored ← (Host.readFile path : m FileRead)
  let s := a.apply (library.readSettingsFile (textOf stored))
  if a.writeConfig then storeSettings (m := m) library path s
  else
    match ← (Host.readFile (a.rom.getD "") : m FileRead) with
    | .contents rom => runImage (m := m) a s rom
    | .missing reason | .refused reason => throw (.system reason)

def main (commands : CommandLibrary) (words : List String) : m Ending := do
  match commands.parse Address.parse? words with
  | .help =>
    Host.print commands.usage.toUTF8
    return .done
  | .version =>
    Host.print commands.version.toUTF8
    return .done
  | .refused => return .misused
  | .run a =>
    match ← (perform library a).run with
    | .ok () => return .done
    | .error .beyondClock => return .brokenOff .beyondClock
    | .error c => return .complained c

end Cli
end Handheld
