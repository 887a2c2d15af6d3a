/-!
Values of a TOML document. A table remembers how it came about, because that decides whether more
may be added to it.
-/

namespace Handheld.Toml

inductive TableKind where
  /-- Opened by a header of its own. -/
  | header
  /-- Named on the way in a header. -/
  | implicit
  /-- Named on the way in a dotted key. -/
  | dotted
  /-- Written in braces, and closed with them. -/
  | inline
  deriving DecidableEq, Repr

inductive Value where
  | string (s : String)
  | integer (n : Int)
  /-- A float, as written. -/
  | float (text : String)
  | boolean (b : Bool)
  /-- A number that is written well and has no value: one too large to hold, or a base without
  digits. It does no harm where nobody asks for it. -/
  | unheld
  /-- A date, a time, or both, as written. -/
  | moment (text : String)
  | array (items : List Value)
  | table (kind : TableKind) (entries : List (String × Value))
  /-- An array whose tables are opened by headers, the last of them open. -/
  | tables (rows : List (List (String × Value)))
  deriving Repr

namespace Value

mutual

def held : Value → Bool
  | .unheld => false
  | .array items => itemsHeld items
  | .table _ entries => entriesHeld entries
  | .tables rows => rowsHeld rows
  | _ => true

def itemsHeld : List Value → Bool
  | [] => true
  | v :: rest => v.held && itemsHeld rest

def entriesHeld : List (String × Value) → Bool
  | [] => true
  | (_, v) :: rest => v.held && entriesHeld rest

def rowsHeld : List (List (String × Value)) → Bool
  | [] => true
  | row :: rest => entriesHeld row && rowsHeld rest

end

end Value

/-- The entries of a table, in the order in which they were first written. -/
abbrev Entries := List (String × Value)

namespace Entries

def get? (t : Entries) (key : String) : Option Value := t.lookup key

def replace (t : Entries) (key : String) (v : Value) : Entries :=
  t.map fun (k, old) => if k = key then (k, v) else (k, old)

def insert? (t : Entries) (key : String) (v : Value) : Option Entries :=
  match t.get? key with
  | none => some (t ++ [(key, v)])
  | some _ => none

def keys (t : Entries) : List String := t.map Prod.fst

end Entries
end Handheld.Toml
