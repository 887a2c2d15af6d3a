/-!
Numbers written in upper-case hexadecimal with a least number of digits, the reading of hexadecimal
digits, and dumps of bytes, which are written in lower case.
-/

namespace Handheld.Hexadecimal

def digit (n : Nat) : Char := if n < 10 then Char.ofNat (48 + n) else Char.ofNat (55 + n)

/-- The digits of `n`, `width` of them at least, most significant first. -/
def digits (width n : Nat) : List Char :=
  let ds := (Nat.toDigits 16 n).map Char.toUpper
  List.replicate (width - ds.length) '0' ++ ds

def padded (width n : Nat) : String := String.ofList (digits width n)

def byte (b : UInt8) : String := padded 2 b.toNat

def word (w : UInt16) : String := padded 4 w.toNat

def value? (c : Char) : Option Nat :=
  if '0' ≤ c ∧ c ≤ '9' then some (c.toNat - 48)
  else if 'a' ≤ c ∧ c ≤ 'f' then some (c.toNat - 87)
  else if 'A' ≤ c ∧ c ≤ 'F' then some (c.toNat - 55)
  else none

/-- The value of a list of digits after the digits already read; any other character refuses it. -/
def valueFrom? (acc : Nat) : List Char → Option Nat
  | [] => some acc
  | c :: cs => (value? c).bind fun d => valueFrom? (16 * acc + d) cs

def lower (width n : Nat) : String := String.ofList ((digits width n).map Char.toLower)

def dump (bytes : List UInt8) : String := String.join (bytes.map fun b => lower 2 b.toNat)

/-- The bytes of pairs of digits, after those already read; it ends where there is no pair. -/
def bytesFrom (acc : ByteArray) : List Char → ByteArray
  | a :: b :: rest =>
    match value? a, value? b with
    | some high, some low => bytesFrom (acc.push (UInt8.ofNat (16 * high + low))) rest
    | _, _ => acc
  | _ => acc

def bytes (dump : String) : ByteArray := bytesFrom ByteArray.empty dump.toList

end Handheld.Hexadecimal
