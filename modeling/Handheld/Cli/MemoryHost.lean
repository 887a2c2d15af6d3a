import Handheld.Cli.Host
import Handheld.Ppu.Png

/-!
A system kept in memory, on which the command line program can be run and looked at. A path is
followed part by part from the directory the program runs in, or from the root.
-/

namespace Handheld

inductive StoredFile where
  | bytes (b : ByteArray)
  | picture (p : Picture)

inductive Place where
  | directory (path : List String)
  | file (path : List String) (f : StoredFile)
  /-- A name that is free in its directory. -/
  | free (path : List String)
  | missing
  /-- The way leads through a file, or by a name that is too long. -/
  | blocked

structure MemoryHost where
  /-- Files by the names from the root on. -/
  files : List (List String × StoredFile) := []
  directories : List (List String) := []
  printed : ByteArray := ByteArray.empty
  environment : List (String × String) := []
  /-- The words for every failure. -/
  failure : String

namespace MemoryHost

def home : List String := ["home"]

def sink : List String := ["dev", "null"]

def standing : List (List String) := [[], home, ["dev"], ["tmp"]]

def nameLimit : Nat := 255

def pathLimit : Nat := 4096

def file? (h : MemoryHost) (path : List String) : Option StoredFile :=
  if path = sink then some (.bytes ByteArray.empty) else h.files.lookup path

def isDirectory (h : MemoryHost) (path : List String) : Bool :=
  standing.contains path || h.directories.contains path

/-- A part of a path that leads nowhere else, like the one after a slash at the end. -/
def stays (part : String) : Bool := part == "" || part == "."

def origin (path : String) : List String := if path.startsWith "/" then [] else home

def follow (h : MemoryHost) (here : List String) : List String → Place
  | [] => .directory here
  | part :: rest =>
    if stays part then h.follow here rest
    else if part == ".." then h.follow here.dropLast rest
    else if nameLimit < part.utf8ByteSize then .blocked
    else if h.isDirectory (here ++ [part]) then h.follow (here ++ [part]) rest
    else
      match h.file? (here ++ [part]), rest with
      | some f, [] => .file (here ++ [part]) f
      | some _, _ :: _ => .blocked
      | none, [] => .free (here ++ [part])
      | none, _ :: _ => .missing

def place (h : MemoryHost) (path : String) : Place :=
  if path.isEmpty then .missing
  else if pathLimit ≤ path.utf8ByteSize then .blocked
  else h.follow (origin path) (path.splitOn "/")

def picture? (h : MemoryHost) (path : String) : Option Picture :=
  match h.place path with
  | .file _ (.picture p) => some p
  | _ => none

def read (h : MemoryHost) (path : String) : FileRead :=
  match h.place path with
  | .file _ (.bytes b) => .contents b
  | .file _ (.picture p) => .contents (Png.encode p)
  | .free _ | .missing => .missing h.failure
  | .directory _ | .blocked => .refused h.failure

def store (h : MemoryHost) (path : List String) (f : StoredFile) : MemoryHost :=
  { h with files := (path, f) :: h.files.filter fun e => e.1 != path }

def write (h : MemoryHost) (path : String) (f : StoredFile) : Option String × MemoryHost :=
  match h.place path with
  | .file path _ | .free path => (none, h.store path f)
  | _ => (some h.failure, h)

/-- Follows the parts of a path from a directory on and makes the directories that are missing. -/
def makeParts (h : MemoryHost) (here : List String) : List String → Option String × MemoryHost
  | [] => (none, h)
  | part :: rest =>
    if stays part then h.makeParts here rest
    else if part == ".." then h.makeParts here.dropLast rest
    else
      match h.follow here [part] with
      | .directory path => h.makeParts path rest
      | .free path => makeParts { h with directories := path :: h.directories } path rest
      | _ => (some h.failure, h)

def makeWay (h : MemoryHost) (path : String) : Option String × MemoryHost :=
  if pathLimit ≤ path.utf8ByteSize then (some h.failure, h)
  else h.makeParts (origin path) ((parentOf path).splitOn "/")

end MemoryHost

instance : Host (StateM MemoryHost) where
  readFile path := fun h => (h.read path, h)
  writeFile path bytes := fun h => h.write path (.bytes bytes)
  writePicture path picture := fun h => h.write path (.picture picture)
  makeWay path := fun h => h.makeWay path
  print bytes := fun h => ((), { h with printed := h.printed ++ bytes })
  environment? name := fun h => (h.environment.lookup name, h)

end Handheld
