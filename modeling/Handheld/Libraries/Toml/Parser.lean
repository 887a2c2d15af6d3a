import Handheld.Libraries.Toml.Scalars
import Handheld.Libraries.Toml.Strings
import Handheld.Libraries.Toml.Tables

/-!
Reading a document. Every line opens a table, enters a value, or is empty; one line that is none of
these refuses the whole document.
-/

namespace Handheld.Toml

def skipBlanks (cs : List Char) : List Char := cs.dropWhile isBlank

def skipComment : List Char → Option (List Char)
  | [] => some []
  | '\n' :: rest => some ('\n' :: rest)
  | '\r' :: '\n' :: rest => some ('\r' :: '\n' :: rest)
  | c :: rest => if plainChar c then skipComment rest else none

/-- Drops blanks, line ends and comments; the flag says that a comment is being dropped. -/
def skipLines : Bool → List Char → Option (List Char)
  | _, [] => some []
  | _, '\n' :: rest => skipLines false rest
  | _, '\r' :: '\n' :: rest => skipLines false rest
  | true, c :: rest => if plainChar c then skipLines true rest else none
  | false, ' ' :: rest => skipLines false rest
  | false, '\t' :: rest => skipLines false rest
  | false, '#' :: rest => skipLines true rest
  | false, cs => some cs

def endLine (cs : List Char) : Option (List Char) := do
  let rest ← match skipBlanks cs with
    | '#' :: rest => skipComment rest
    | rest => some rest
  match rest with
  | [] => some []
  | '\n' :: rest => some rest
  | '\r' :: '\n' :: rest => some rest
  | _ => none

def isBare (c : Char) : Bool :=
  ('a' ≤ c && c ≤ 'z') || ('A' ≤ c && c ≤ 'Z') || isDigit c || c == '_' || c == '-'

def readKey (cs : List Char) : Option (String × List Char) :=
  match cs with
  | '"' :: rest => (readBasic rest).map fun (s, rest) => (String.ofList s, rest)
  | '\'' :: rest => (readLiteral rest).map fun (s, rest) => (String.ofList s, rest)
  | cs =>
    match cs.span isBare with
    | ([], _) => none
    | (key, rest) => some (String.ofList key, rest)

def readKeys : Nat → List Char → Option (List String × List Char)
  | 0, _ => none
  | n + 1, cs => do
    let (key, rest) ← readKey cs
    match skipBlanks rest with
    | '.' :: rest =>
      let (keys, rest) ← readKeys n (skipBlanks rest)
      return (key :: keys, rest)
    | rest => return ([key], rest)

/-- How deep arrays and tables in braces may be nested, and how many parts a dotted key may have. -/
def nestingLimit : Nat := 80

def readDotted (cs : List Char) : Option (List String × List Char) := readKeys nestingLimit cs

abbrev ValueReader := List Char → Option (Value × List Char)

/-- Drops what may stand around the sign of an entry: blanks, and in braces line ends and comments
too. -/
abbrev Spacing := List Char → Option (List Char)

/-- Reads the items of an array up to its bracket, of which there are fewer than the count. -/
def readItems (value : ValueReader) : Nat → List Char → Option (List Value × List Char)
  | 0, _ => none
  | n + 1, cs => do
    match ← skipLines false cs with
    | ']' :: rest => return ([], rest)
    | cs =>
      let (v, rest) ← value cs
      match ← skipLines false rest with
      | ',' :: rest =>
        let (vs, rest) ← readItems value n rest
        return (v :: vs, rest)
      | ']' :: rest => return ([v], rest)
      | _ => none

def readPair (spacing : Spacing) (value : ValueReader) (cs : List Char) :
    Option ((List String × Value) × List Char) := do
  let (keys, rest) ← readDotted cs
  match ← spacing rest with
  | '=' :: rest =>
    let (v, rest) ← value (← spacing rest)
    return ((keys, v), rest)
  | _ => none

/-- Reads the entries of a table in braces, of which there are fewer than the count. -/
def readEntries (value : ValueReader) : Nat → Entries → List Char → Option (Entries × List Char)
  | 0, _, _ => none
  | n + 1, t, cs => do
    match ← skipLines false cs with
    | '\x7d' :: rest => return (t, rest)
    | cs =>
      let ((keys, v), rest) ← readPair (skipLines false) value cs
      let t ← assign keys v .inline t
      match ← skipLines false rest with
      | ',' :: rest => readEntries value n t rest
      | '\x7d' :: rest => return (t, rest)
      | _ => none

def readValue : Nat → ValueReader
  | _, '"' :: rest => (readString ('"' :: rest)).map fun (s, rest) =>
      (.string (String.ofList s), rest)
  | _, '\'' :: rest => (readString ('\'' :: rest)).map fun (s, rest) =>
      (.string (String.ofList s), rest)
  | depth + 1, '[' :: rest =>
    (readItems (readValue depth) (rest.length + 1) rest).map fun (vs, rest) => (.array vs, rest)
  | depth + 1, '\x7b' :: rest =>
    (readEntries (readValue depth) (rest.length + 1) [] rest).map fun (t, rest) =>
      (.table .inline t, rest)
  | _, cs => readScalar cs

inductive Line where
  | blank
  | header (keys : List String)
  | row (keys : List String)
  | entry (keys : List String) (v : Value)
  deriving Repr

def readHeader (closing : List Char) (cs : List Char) : Option (List String × List Char) := do
  let (keys, rest) ← readDotted (skipBlanks cs)
  if closing.isPrefixOf rest then return (keys, rest.drop closing.length) else none

def readLine (cs : List Char) : Option (Line × List Char) :=
  match skipBlanks cs with
  | '[' :: '[' :: rest => (readHeader [']', ']'] rest).map fun (keys, rest) => (.row keys, rest)
  | '[' :: rest => (readHeader [']'] rest).map fun (keys, rest) => (.header keys, rest)
  | [] => some (.blank, [])
  | c :: rest =>
    if c == '#' || c == '\n' || c == '\r' then some (.blank, c :: rest)
    else (readPair (some ∘ skipBlanks) (readValue nestingLimit) (c :: rest)).map
      fun ((keys, v), rest) => (.entry keys v, rest)

structure Draft where
  root : Entries := []
  /-- The table that entries go to. -/
  current : List String := []

namespace Draft

def add (d : Draft) : Line → Option Draft
  | .blank => some d
  | .header keys => (openTable keys .header d.root).map fun root => { root, current := keys }
  | .row keys => (openRow keys .header d.root).map fun root => { root, current := keys }
  | .entry keys v =>
    (editAt false (assign keys v) d.current .header d.root).map fun root => { d with root }

def addLines : Nat → Draft → List Char → Option Draft
  | 0, _, _ => none
  | _, d, [] => some d
  | n + 1, d, cs => do
    let (line, rest) ← readLine cs
    let d ← d.add line
    addLines n d (← endLine rest)

end Draft

def dropMark : List Char → List Char
  | '\ufeff' :: cs => cs
  | cs => cs

def parse? (text : String) : Option Entries :=
  let cs := dropMark text.toList
  (Draft.addLines (cs.length + 1) {} cs).map (·.root)

end Handheld.Toml
