/-!
Numbers written with a fixed count of places after the point. The value is rounded to the nearest
number with so many places, and a tie goes to the even one.
-/

namespace Handheld.FixedPlaces

/-- A quotient rounded to the nearest number, of two that are equally near to the even one. -/
def roundDiv (num den : Nat) : Nat :=
  let q := num / den
  let r := num % den
  if 2 * r < den then q
  else if den < 2 * r then q + 1
  else q + q % 2

def digits (n : Nat) : List Char := Nat.toDigits 10 n

def ofRatio (places num den : Nat) : List Char :=
  let n := roundDiv (num * Nat.pow 10 places) den
  let low := digits (n % Nat.pow 10 places)
  digits (n / Nat.pow 10 places) ++ '.' :: (List.replicate (places - low.length) '0' ++ low)

def ratio (x : Float32) : Nat × Nat :=
  let bits := x.toBits.toNat % 1 <<< 31
  let exponent := bits >>> 23
  let fraction := bits % 1 <<< 23
  if exponent = 0 then (fraction, 1 <<< 149)
  else ((fraction + 1 <<< 23) <<< (exponent - 150), 1 <<< (150 - exponent))

def ofFloat32 (places : Nat) (x : Float32) : String :=
  let (num, den) := ratio x
  String.ofList (ofRatio places num den)

end Handheld.FixedPlaces
