import Handheld.Ppu.Frame

/-!
What the command line program asks of the system it runs on.
-/

namespace Handheld

/-- What reading a file comes to. A failure has the system's words for it. -/
inductive FileRead where
  | contents (bytes : ByteArray)
  | missing (reason : String)
  | refused (reason : String)

namespace FileRead

def bytes? : FileRead → Option ByteArray
  | .contents bytes => some bytes
  | _ => none

end FileRead

/-- A system with files, variables and a standard output. What may fail gives the system's words for
the failure, or nothing. -/
class Host (m : Type → Type) where
  readFile (path : String) : m FileRead
  writeFile (path : String) (bytes : ByteArray) : m (Option String)
  writePicture (path : String) (picture : Picture) : m (Option String)
  /-- Makes the directories that a path leads through. -/
  makeWay (path : String) : m (Option String)
  print (bytes : ByteArray) : m Unit
  environment? (name : String) : m (Option String)

def joinPath (directory path : String) : String :=
  if directory.isEmpty || directory.endsWith "/" then directory ++ path
  else directory ++ "/" ++ path

/-- The directory of what a path leads to. A slash or a dot at the end is no part of a path. -/
def parentOf (path : String) : String :=
  let parts := (path.splitOn "/").filter fun part => part != "" && part != "."
  (if path.startsWith "/" then "/" else "") ++ "/".intercalate parts.dropLast

/-- The last part of a path with another extension. A dot in front makes no extension. -/
def replaceExtension (extension : List Char) (name : List Char) : List Char :=
  match name.reverse.span (· != '.') with
  | (_, '.' :: stem) => if stem.isEmpty then name ++ '.' :: extension
      else stem.reverse ++ '.' :: extension
  | _ => name ++ '.' :: extension

def withExtension (path extension : String) : String :=
  let (name, way) := path.toList.reverse.span (· != '/')
  String.ofList (way.reverse ++ replaceExtension extension.toList name.reverse)

end Handheld
