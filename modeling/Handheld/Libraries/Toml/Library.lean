import Handheld.Libraries.Documents
import Handheld.Libraries.Toml.Printer

/-!
A stand-in for the library for documents of the program. It writes documents of named tables whose
keys need no quotes and whose values are strings, integers, booleans and arrays of these.
-/

namespace Handheld.Toml

def items? : Value → Option (List Value)
  | .array vs => some vs
  | .tables rows => some (rows.map (.table .header))
  | _ => none

def takeItems? (count : Nat) (v : Value) : Option (List Value) :=
  (items? v).bind fun vs => if count ≤ vs.length then some (vs.take count) else none

def writtenName? : Value → Option String
  | .string s => some s
  | .table _ [(key, .array [])] => some key
  | .table _ [(key, .table _ [])] => some key
  | _ => none

/-- The fields of a record: a table of them, or an array with their values in order. -/
def group? (names : List String) : Value → Option Entries
  | .table _ t => some t
  | .moment _ => some []
  | v => (items? v).map names.zip

/-- Whether the values under other names than these can be passed over, which takes that all their
numbers can be held. -/
def othersHeld (names : List String) (t : Entries) : Bool :=
  t.all fun (name, v) => names.contains name || v.held

def Bare (key : String) : Prop := key ≠ "" ∧ key.toList.all isBare

instance (key : String) : Decidable (Bare key) := inferInstanceAs (Decidable (_ ∧ _))

def Value.storable : Nat → Value → Bool
  | _, .string _ => true
  | _, .boolean _ => true
  | _, .integer n => integerInRange n
  | depth + 1, .array vs => vs.all (storable depth)
  | _, _ => false

/-- A table that can be written under its header. -/
structure Entries.Writable (t : Entries) : Prop where
  distinct : t.keys.Nodup
  bare : ∀ key ∈ t.keys, Bare key
  storable : ∀ e ∈ t, e.2.storable nestingLimit

instance (t : Entries) : Decidable t.Writable :=
  decidable_of_iff (t.keys.Nodup ∧ (∀ key ∈ t.keys, Bare key) ∧ ∀ e ∈ t, e.2.storable nestingLimit)
    ⟨fun ⟨hdistinct, hbare, hstorable⟩ => ⟨hdistinct, hbare, hstorable⟩,
      fun h => ⟨h.distinct, h.bare, h.storable⟩⟩

def openedTable? (e : String × Value) : Option (String × Entries) :=
  match e with
  | (name, .table .header t) => some (name, t)
  | _ => none

def groups? : Value → Option (List (String × Entries))
  | .table .header root =>
    (root.mapM openedTable?).bind fun groups =>
      if (groups.map Prod.fst).Nodup ∧ ∀ g ∈ groups, Bare g.1 ∧ g.2.Writable then some groups
      else none
  | _ => none

def print (document : Value) : Except String String :=
  match groups? document with
  | some groups => .ok (String.ofList (writeTables groups))
  | none => .error "unsupported document"

def library : DocumentLibrary Value where
  parse? text := (parse? text).map (.table .header)
  print := print
  boolean?
    | .boolean b => some b
    | _ => none
  number? limit
    | .integer n => if 0 ≤ n ∧ n < limit then some n.toNat else none
    | _ => none
  text?
    | .string s => some s
    | _ => none
  name? names v := (writtenName? v).bind fun name => if names.contains name then some name else none
  items? := takeItems?
  fields? names v := (group? names v).bind fun t => if othersHeld names t then some t else none
  ofBoolean := .boolean
  ofNumber n := .integer n
  ofText := .string
  ofItems := .array
  ofFields := .table .header

end Handheld.Toml
