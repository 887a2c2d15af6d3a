import Handheld.Text.Hexadecimal

/-!
Short texts for what is seen on the bench: lists by their runs of equal items, contents by a digest
of 64 bits, and bytes as text in which every byte that is no part of a character has a replacement.
-/

namespace Handheld.Runs
variable {α : Type} [DecidableEq α]

def add (x : α) : List (α × Nat) → List (α × Nat)
  | [] => [(x, 1)]
  | (y, n) :: rest => if x = y then (y, n + 1) :: rest else (x, 1) :: (y, n) :: rest

def ofList (xs : List α) : List (α × Nat) := xs.foldr add []

def text (xs : List String) : String :=
  ",".intercalate ((ofList xs).map fun (x, n) => x ++ "*" ++ toString n)

end Handheld.Runs

namespace Handheld.Digest

def start : UInt64 := 0xCBF29CE484222325

def prime : UInt64 := 0x100000001B3

def step (h : UInt64) (b : UInt8) : UInt64 := (h ^^^ b.toUInt64) * prime

def ofBytes (bytes : ByteArray) : UInt64 := bytes.foldl step start

def text (bytes : ByteArray) : String := Hexadecimal.lower 16 (ofBytes bytes).toNat

end Handheld.Digest

namespace Handheld.Utf8

/-- A character of which some bytes are missing, and the range of the next of them. -/
structure Opening where
  value : Nat
  missing : Nat
  low : UInt8 := 0x80
  high : UInt8 := 0xBF
  deriving DecidableEq, Repr

/-- Characters read so far, the last one first, and the one being read. -/
structure Reading where
  shown : List Char := []
  opening : Option Opening := none
  deriving DecidableEq, Repr

def replacement : Char := '\ufffd'

/-- The character that a first byte opens. Ranges of the second byte leave out what has a shorter
form, what is half of a pair, and what lies past the last character. -/
def opened? (b : UInt8) : Option Opening :=
  if b < 0xC2 then none
  else if b < 0xE0 then some { value := b.toNat % 32, missing := 1 }
  else if b < 0xF0 then
    some
      { value := b.toNat % 16
        missing := 2
        low := if b = 0xE0 then 0xA0 else 0x80
        high := if b = 0xED then 0x9F else 0xBF }
  else if b < 0xF5 then
    some
      { value := b.toNat % 8
        missing := 3
        low := if b = 0xF0 then 0x90 else 0x80
        high := if b = 0xF4 then 0x8F else 0xBF }
  else none

def begin (shown : List Char) (b : UInt8) : Reading :=
  if b < 0x80 then { shown := Char.ofNat b.toNat :: shown }
  else
    match opened? b with
    | some o => { shown, opening := some o }
    | none => { shown := replacement :: shown }

def extend (shown : List Char) (o : Opening) (b : UInt8) : Reading :=
  let value := 64 * o.value + b.toNat % 64
  if o.missing ≤ 1 then { shown := Char.ofNat value :: shown }
  else { shown, opening := some { value, missing := o.missing - 1 } }

def step (r : Reading) (b : UInt8) : Reading :=
  match r.opening with
  | none => begin r.shown b
  | some o =>
    if o.low ≤ b && b ≤ o.high then extend r.shown o b else begin (replacement :: r.shown) b

def Reading.finish (r : Reading) : List Char :=
  (if r.opening.isSome then replacement :: r.shown else r.shown).reverse

def text (bytes : ByteArray) : String := String.ofList (bytes.foldl step {}).finish

end Handheld.Utf8
