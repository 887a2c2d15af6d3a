import Handheld.Libraries.Documents
import Handheld.Settings

/-!
The settings of the command line program and their file, over any library for documents. A field
that the file leaves out has its default; a file that is no document, or in which a field has a
value that its type does not take, counts as an empty one.
-/

namespace Handheld

structure RunSettings where
  frames : Nat := 600
  timeoutSeconds : Nat := 60
  /-- Where the last frame is written. -/
  screenshot : Option String := none
  /-- Print what was sent over the serial link. -/
  serial : Bool := false
  /-- Print the peak level of each channel. -/
  audioReport : Bool := false
  deriving DecidableEq, Repr

structure ProgramSettings where
  machine : MachineSettings := {}
  run : RunSettings := {}
  deriving DecidableEq, Repr

namespace Configuration

def modelName : ModelPreference → String
  | .auto => "auto"
  | .forceMonochrome => "force-dmg"
  | .forceColor => "force-cgb"

def models : List ModelPreference := [.auto, .forceMonochrome, .forceColor]

def modelNamed? (name : String) : Option ModelPreference :=
  models.find? fun p => modelName p == name

theorem modelNamed?_modelName (p : ModelPreference) : modelNamed? (modelName p) = some p := by
  cases p <;> decide

/-- The fields of the settings of a machine, in the order of the file. -/
def machineNames : List String :=
  ["model", "frame_limit", "break_on_fault", "shades", "sample_rate"]

def runNames : List String := ["frames", "timeout_secs", "screenshot", "serial", "audio_report"]

def groupNames : List String := ["emulator", "run"]

variable {V α : Type}

/-- The value of a field, which is the default where nothing is found for it. -/
def field (t : List (String × V)) (name : String) (decode : V → Option α) (default : α) :
    Option α :=
  match t.lookup name with
  | none => some default
  | some v => decode v

def optional (decode : V → Option α) (v : V) : Option (Option α) := (decode v).map some

def optionalField (name : String) (v? : Option V) : List (String × V) :=
  (v?.map fun v => (name, v)).toList

end Configuration

namespace DocumentLibrary
open Handheld.Configuration

variable {V : Type} (library : DocumentLibrary V)

def byte? (v : V) : Option UInt8 := (library.number? 256 v).map UInt8.ofNat

def color? (v : V) : Option Rgb := do
  match ← library.items? 3 v with
  | [r, g, b] => return ⟨← library.byte? r, ← library.byte? g, ← library.byte? b⟩
  | _ => none

def shades? (v : V) : Option Shades := do
  match ← library.items? 4 v with
  | [a, b, c, d] =>
    return ⟨← library.color? a, ← library.color? b, ← library.color? c, ← library.color? d⟩
  | _ => none

def model? (v : V) : Option ModelPreference :=
  (library.name? (models.map modelName) v).bind modelNamed?

def machine? (v : V) : Option MachineSettings := do
  let t ← library.fields? machineNames v
  let d : MachineSettings := {}
  return {
    model := ← field t "model" library.model? d.model
    frameLimit := ← field t "frame_limit" library.boolean? d.frameLimit
    breakOnFault := ← field t "break_on_fault" library.boolean? d.breakOnFault
    shades := ← field t "shades" (optional library.shades?) d.shades
    sampleRate := ← field t "sample_rate" (library.number? (1 <<< 32)) d.sampleRate }

def run? (v : V) : Option RunSettings := do
  let t ← library.fields? runNames v
  let d : RunSettings := {}
  return {
    frames := ← field t "frames" (library.number? (1 <<< 64)) d.frames
    timeoutSeconds := ← field t "timeout_secs" (library.number? (1 <<< 64)) d.timeoutSeconds
    screenshot := ← field t "screenshot" (optional library.text?) d.screenshot
    serial := ← field t "serial" library.boolean? d.serial
    audioReport := ← field t "audio_report" library.boolean? d.audioReport }

def settings? (v : V) : Option ProgramSettings := do
  let t ← library.fields? groupNames v
  return {
    machine := ← field t "emulator" library.machine? {}
    run := ← field t "run" library.run? {} }

def readSettings (text : String) : ProgramSettings :=
  ((library.parse? text).bind library.settings?).getD {}

def readSettingsFile (text : Option String) : ProgramSettings :=
  (text.map library.readSettings).getD {}

def ofColor (c : Rgb) : V :=
  library.ofItems ([c.red, c.green, c.blue].map fun b => library.ofNumber b.toNat)

def ofShades (s : Shades) : V := library.ofItems (s.toList.map library.ofColor)

def machineFields (s : MachineSettings) : List (String × V) :=
  [("model", library.ofText (modelName s.model)), ("frame_limit", library.ofBoolean s.frameLimit),
    ("break_on_fault", library.ofBoolean s.breakOnFault)] ++
  optionalField "shades" (s.shades.map library.ofShades) ++
  [("sample_rate", library.ofNumber s.sampleRate)]

def runFields (s : RunSettings) : List (String × V) :=
  [("frames", library.ofNumber s.frames), ("timeout_secs", library.ofNumber s.timeoutSeconds)] ++
  optionalField "screenshot" (s.screenshot.map library.ofText) ++
  [("serial", library.ofBoolean s.serial), ("audio_report", library.ofBoolean s.audioReport)]

def ofSettings (s : ProgramSettings) : V :=
  library.ofFields [("emulator", library.ofFields (library.machineFields s.machine)),
    ("run", library.ofFields (library.runFields s.run))]

def writeSettings (s : ProgramSettings) : Except String String :=
  library.print (library.ofSettings s)

end DocumentLibrary
end Handheld
