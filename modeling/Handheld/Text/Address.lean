import Handheld.Text.Hexadecimal

/-!
Addresses as a user types them: hexadecimal digits of either case, after any marks of that base and
a sign.
-/

namespace Handheld.Address

def dropPairs (a b : Char) : List Char → List Char
  | c :: d :: rest => if c = a ∧ d = b then dropPairs a b rest else c :: d :: rest
  | cs => cs

def dropMarks (cs : List Char) : List Char :=
  (dropPairs '0' 'X' (dropPairs '0' 'x' cs)).dropWhile (· == '$')

def dropSign : List Char → List Char
  | '+' :: rest => rest
  | cs => cs

def ofDigits? (cs : List Char) : Option UInt16 :=
  if cs.isEmpty then none
  else
    (Hexadecimal.valueFrom? 0 cs).bind fun n => if n < 0x10000 then some (UInt16.ofNat n) else none

def parse? (s : String) : Option UInt16 := ofDigits? (dropSign (dropMarks s.toList))

end Handheld.Address
