import Handheld.Cli.Run
import Handheld.Libraries.CommandLine
import Handheld.Libraries.Toml.Library
import Handheld.Ppu.Png

/-!
The command line program on the system it is started on.
-/

namespace Handheld

def reasonOf (action : IO Unit) : IO (Option String) := do
  try
    action
    return none
  catch e => return some (toString e)

instance : Host IO where
  readFile path := do
    try return .contents (← IO.FS.readBinFile path)
    catch e =>
      match e with
      | .noFileOrDirectory .. => return .missing (toString e)
      | e => return .refused (toString e)
  writeFile path bytes := reasonOf (IO.FS.writeBinFile path bytes)
  writePicture path picture := reasonOf (IO.FS.writeBinFile path (Png.encode picture))
  makeWay path := do
    let parent := parentOf path
    if parent.isEmpty then return none else reasonOf (IO.FS.createDirAll parent)
  print bytes := do (← IO.getStdout).write bytes
  environment? name := IO.getEnv name

end Handheld

open Handheld

def main (words : List String) : IO UInt32 := do
  let ending : Ending ← Cli.main Toml.library CommandLine.library words
  match ending with
  | .complained c => IO.eprintln ("error: " ++ c.message)
  | .brokenOff c => IO.eprintln c.message
  | .misused => IO.eprint CommandLine.usage
  | .done => pure ()
  return ending.exitCode.toUInt32
