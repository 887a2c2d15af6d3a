/-!
A library for documents of named values, as a program uses it for its settings: it reads and writes
texts, takes a value for a type, and makes a value of one. Nothing is said here of the texts.
-/

namespace Handheld

/-- A library for documents whose values are of a type `V`. -/
structure DocumentLibrary (V : Type) where
  /-- The value that a text is a document of. -/
  parse? (text : String) : Option V
  /-- The text of a document, or the library's words for why there is none. -/
  print (document : V) : Except String String
  boolean? : V → Option Bool
  /-- A natural number below a limit. -/
  number? (limit : Nat) : V → Option Nat
  text? : V → Option String
  /-- One of these names. -/
  name? (names : List String) : V → Option String
  /-- The items of an array of so many. -/
  items? (count : Nat) : V → Option (List V)
  /-- What a record of these fields finds for them, each under its name. -/
  fields? (names : List String) : V → Option (List (String × V))
  ofBoolean : Bool → V
  ofNumber : Nat → V
  ofText : String → V
  ofItems : List V → V
  ofFields : List (String × V) → V

namespace DocumentLibrary

/-- What a program relies on: printing and parsing are inverse, plain values are taken by their own
type only, and what was made of a name, an array or a record is taken for it again. -/
structure Lawful {V : Type} (library : DocumentLibrary V) : Prop where
  parse?_of_print {document : V} {text : String} (h : library.print document = .ok text) :
    library.parse? text = some document
  boolean?_eq_some_iff {v : V} {b : Bool} :
    library.boolean? v = some b ↔ v = library.ofBoolean b
  number?_eq_some_iff {limit n : Nat} {v : V} :
    library.number? limit v = some n ↔ v = library.ofNumber n ∧ n < limit
  text?_eq_some_iff {v : V} {s : String} : library.text? v = some s ↔ v = library.ofText s
  name?_ofText {names : List String} {name : String} (h : name ∈ names) :
    library.name? names (library.ofText name) = some name
  items?_ofItems (items : List V) :
    library.items? items.length (library.ofItems items) = some items
  fields?_ofFields {names : List String} {t : List (String × V)} (h : ∀ e ∈ t, e.1 ∈ names) :
    library.fields? names (library.ofFields t) = some t

end DocumentLibrary
end Handheld
