import Handheld.Libraries.Toml.Parser

/-!
Writing a document of named tables. An array takes a line for each item.
-/

namespace Handheld.Toml

mutual

def Value.write : Value → List Char
  | .string s => writeString s.toList
  | .integer n => (toString n).toList
  | .float text => text.toList
  | .boolean b => (if b then "true" else "false").toList
  | .moment text => text.toList
  | .array [] => ['[', ']']
  | .array (v :: vs) => ['[', '\n'] ++ Value.writeItems (v :: vs) ++ [']']
  | .unheld | .table _ _ | .tables _ => []

def Value.writeItems : List Value → List Char
  | [] => []
  | v :: vs => [' ', ' ', ' ', ' '] ++ v.write ++ [',', '\n'] ++ Value.writeItems vs

end

def writeEntry (e : String × Value) : List Char :=
  e.1.toList ++ [' ', '=', ' '] ++ e.2.write ++ ['\n']

def writeTable (name : String) (t : Entries) : List Char :=
  ['['] ++ name.toList ++ [']', '\n'] ++ t.flatMap writeEntry

def writeTables : List (String × Entries) → List Char
  | [] => []
  | [(name, t)] => writeTable name t
  | (name, t) :: rest => writeTable name t ++ '\n' :: writeTables rest

end Handheld.Toml
