import Handheld.Libraries.Toml.Value

/-!
Tables as a document builds them up. A path leads through tables and through the last table of an
array; what is missing on the way is created. A table in braces is closed, and a dotted key adds
only to tables that dotted keys created.
-/

namespace Handheld.Toml

/-- A change of the table at the end of a path; it may depend on how that table came about. -/
abbrev Edit := TableKind → Entries → Option Entries

def TableKind.passable (dotted : Bool) : TableKind → Bool
  | .inline => false
  | .header => !dotted
  | .implicit | .dotted => true

def editLast (f : Entries → Option Entries) : List Entries → Option (List Entries)
  | [] => none
  | [row] => (f row).map ([·])
  | row :: rest => (editLast f rest).map (row :: ·)

def editAt (dotted : Bool) (edit : Edit) : List String → Edit
  | [], kind, t => edit kind t
  | key :: path, _, t =>
    match t.get? key with
    | none =>
      let kind := if dotted then TableKind.dotted else .implicit
      (editAt dotted edit path kind []).bind fun inner => t.insert? key (.table kind inner)
    | some (.table kind inner) =>
      if kind.passable dotted then
        (editAt dotted edit path kind inner).map fun inner => t.replace key (.table kind inner)
      else none
    | some (.tables rows) =>
      (editLast (editAt dotted edit path .header) rows).map fun rows => t.replace key (.tables rows)
    | some _ => none

def splitLast : List String → Option (List String × String)
  | [] => none
  | [key] => some ([], key)
  | key :: rest => (splitLast rest).map fun (path, last) => (key :: path, last)

def assign (keys : List String) (v : Value) : Edit := fun kind t => do
  let (path, key) ← splitLast keys
  editAt true (fun kind t =>
    if (kind == .dotted) == path.isEmpty then none else t.insert? key v) path kind t

/-- Opens a table by a header. One that was only named on the way in headers so far may be
opened. -/
def openTable (keys : List String) : Edit := fun kind t => do
  let (path, key) ← splitLast keys
  editAt false (fun _ t =>
    match t.get? key with
    | none => t.insert? key (.table .header [])
    | some (.table .implicit inner) => some (t.replace key (.table .header inner))
    | some _ => none) path kind t

def openRow (keys : List String) : Edit := fun kind t => do
  let (path, key) ← splitLast keys
  editAt false (fun _ t =>
    match t.get? key with
    | none => t.insert? key (.tables [[]])
    | some (.tables rows) => some (t.replace key (.tables (rows ++ [[]])))
    | some _ => none) path kind t

end Handheld.Toml
