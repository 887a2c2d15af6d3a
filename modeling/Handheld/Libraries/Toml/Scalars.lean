import Handheld.Text.Hexadecimal
import Handheld.Libraries.Toml.Value

/-!
Values written without quotes: booleans, integers, floats, dates and times. Each is recognised as a
whole, from all the characters up to the next blank, comment or mark.
-/

namespace Handheld.Toml

def isDigit (c : Char) : Bool := '0' ≤ c && c ≤ '9'

/-- Splits off the digits in front, without the underscores that stand singly between two of
them. -/
def takeDigits (digit : Char → Bool) : List Char → List Char × List Char
  | c :: '_' :: d :: rest =>
    if digit c && digit d then
      let (ds, rest) := takeDigits digit (d :: rest)
      (c :: ds, rest)
    else if digit c then ([c], '_' :: d :: rest)
    else ([], c :: '_' :: d :: rest)
  | c :: rest =>
    if digit c then
      let (ds, rest) := takeDigits digit rest
      (c :: ds, rest)
    else ([], c :: rest)
  | [] => ([], [])

def onlyDigits? (digit : Char → Bool) (cs : List Char) : Option (List Char) :=
  match takeDigits digit cs with
  | (d :: ds, []) => some (d :: ds)
  | _ => none

def decimalValue (ds : List Char) : Nat := ds.foldl (fun n d => 10 * n + (d.toNat - 48)) 0

def leadOk : List Char → Bool
  | '0' :: _ :: _ => false
  | _ => true

/-- The value of a number in a base that is a power of two, of `bits` bits a digit. -/
def codedValue (bits : Nat) (ds : List Char) : Nat :=
  ds.foldl (fun n d => n <<< bits + (Hexadecimal.value? d).getD 0) 0

def natural? : List Char → Option Nat
  | '0' :: 'x' :: cs => (onlyDigits? (fun c => (Hexadecimal.value? c).isSome) cs).map (codedValue 4)
  | '0' :: 'o' :: cs => (onlyDigits? (fun c => '0' ≤ c && c ≤ '7') cs).map (codedValue 3)
  | '0' :: 'b' :: cs => (onlyDigits? (fun c => c == '0' || c == '1') cs).map (codedValue 1)
  | _ => none

def decimal? (cs : List Char) : Option Nat := do
  let ds ← onlyDigits? isDigit cs
  if leadOk ds then some (decimalValue ds) else none

/-- An integer, which is a decimal number with or without a sign, or a number in another base. -/
def integerOf? : List Char → Option Int
  | '+' :: cs => (decimal? cs).map Int.ofNat
  | '-' :: cs => (decimal? cs).map fun n => -Int.ofNat n
  | cs => ((natural? cs).orElse fun _ => decimal? cs).map Int.ofNat

def integerInRange (n : Int) : Bool := -Int.ofNat (1 <<< 127) ≤ n && n < Int.ofNat (1 <<< 128)

def integer? (cs : List Char) : Option Value :=
  if cs = ['0', 'x'] ∨ cs = ['0', 'o'] ∨ cs = ['0', 'b'] then some .unheld
  else (integerOf? cs).map fun n => if integerInRange n then .integer n else .unheld

/-- The value of the digits of an exponent. One that has come to 65536 takes no further digits. -/
def exponentValue (ds : List Char) : Nat :=
  ds.foldl (fun n d => if n < 65536 then 10 * n + (d.toNat - 48) else n) 0

def exponent? : List Char → Option Int
  | '+' :: cs => (onlyDigits? isDigit cs).map fun ds => Int.ofNat (exponentValue ds)
  | '-' :: cs => (onlyDigits? isDigit cs).map fun ds => -Int.ofNat (exponentValue ds)
  | cs => (onlyDigits? isDigit cs).map fun ds => Int.ofNat (exponentValue ds)

def optionalExponent? : List Char → Option Int
  | [] => some 0
  | 'e' :: cs | 'E' :: cs => exponent? cs
  | _ => none

def floatParts? (cs : List Char) : Option (List Char × Int) :=
  match takeDigits isDigit cs with
  | ([], _) | (_, []) => none
  | (ds, '.' :: rest) =>
    match takeDigits isDigit rest with
    | ([], _) => none
    | (fs, rest) =>
      if leadOk ds then
        (optionalExponent? rest).map fun e => (ds ++ fs, e - fs.length)
      else none
  | (ds, rest) =>
    if leadOk ds then (optionalExponent? rest).map fun e => (ds, e) else none

def floatBound : Nat := 1 <<< 1024 - 1 <<< 970

/-- Whether digits times a power of ten are a double. A power that moves the point in front of all
digits makes a number below one, however large it is. -/
def floatInRange (digits : List Char) (power : Int) : Bool :=
  let n := decimalValue digits
  if n = 0 then true
  else if power < 0 then
    digits.length ≤ power.natAbs || n < floatBound * Nat.pow 10 power.natAbs
  else power ≤ 400 && n * Nat.pow 10 power.natAbs < floatBound

def unsign : List Char → List Char
  | '+' :: cs => cs
  | '-' :: cs => cs
  | cs => cs

def float? (cs : List Char) : Option Value :=
  let float := Value.float (String.ofList cs)
  let body := unsign cs
  if body = ['i', 'n', 'f'] ∨ body = ['n', 'a', 'n'] then some float
  else (floatParts? body).map fun (digits, power) =>
    if floatInRange digits power then float else .unheld

def pair? (a b : Char) : Option Nat :=
  if isDigit a && isDigit b then some (decimalValue [a, b]) else none

def isLeap (year : Nat) : Bool := year % 4 == 0 && (year % 100 != 0 || year % 400 == 0)

def daysIn (year month : Nat) : Nat :=
  match month with
  | 2 => if isLeap year then 29 else 28
  | 4 | 6 | 9 | 11 => 30
  | _ => 31

def dropDate? : List Char → Option (List Char)
  | y :: z :: a :: b :: '-' :: m :: n :: '-' :: d :: e :: rest => do
    let century ← pair? y z
    let year ← pair? a b
    let month ← pair? m n
    let day ← pair? d e
    if 1 ≤ month ∧ month ≤ 12 ∧ 1 ≤ day ∧ day ≤ daysIn (100 * century + year) month then some rest
    else none
  | _ => none

def dropFraction? : List Char → Option (List Char)
  | '.' :: d :: rest => if isDigit d then some (rest.dropWhile isDigit) else none
  | '.' :: [] => none
  | cs => some cs

def dropSeconds? : List Char → Option (List Char)
  | ':' :: s :: t :: rest => do
    let second ← pair? s t
    if second ≤ 60 then dropFraction? rest else none
  | cs => some cs

def dropTime? : List Char → Option (List Char)
  | h :: i :: ':' :: m :: n :: rest => do
    let hour ← pair? h i
    let minute ← pair? m n
    if hour ≤ 23 ∧ minute ≤ 59 then dropSeconds? rest else none
  | _ => none

def isOffset : List Char → Bool
  | ['Z'] | ['z'] => true
  | sign :: h :: i :: ':' :: m :: n :: [] =>
    (sign == '+' || sign == '-') &&
      match pair? h i, pair? m n with
      | some hour, some minute => hour ≤ 23 && minute ≤ 59
      | _, _ => false
  | _ => false

def isTime (cs : List Char) : Bool := dropTime? cs == some []

def isDate (cs : List Char) : Bool := dropDate? cs == some []

def isZonedTime (cs : List Char) : Bool :=
  match dropTime? cs with
  | some rest => rest.isEmpty || isOffset rest
  | none => false

def isDateTime (cs : List Char) : Bool :=
  match dropDate? cs with
  | some (mark :: rest) => (mark == 'T' || mark == 't' || mark == ' ') && isZonedTime rest
  | _ => false

def scalarOf? (cs : List Char) : Option Value :=
  if cs = ['t', 'r', 'u', 'e'] then some (.boolean true)
  else if cs = ['f', 'a', 'l', 's', 'e'] then some (.boolean false)
  else if isDate cs || isTime cs || isDateTime cs then some (.moment (String.ofList cs))
  else (integer? cs).orElse fun _ => float? cs

def endsScalar (c : Char) : Bool :=
  c == ' ' || c == '\t' || c == '\n' || c == '\r' || c == '#' || c == ',' || c == ']' || c == '\x7d'

def takeScalar (cs : List Char) : List Char × List Char := cs.span fun c => !endsScalar c

/-- Reads a value written without quotes. A blank may stand between a date and a time. -/
def readScalar (cs : List Char) : Option (Value × List Char) :=
  match takeScalar cs with
  | (date, ' ' :: d :: rest) =>
    if isDate date && isDigit d then
      let (time, rest) := takeScalar (d :: rest)
      (scalarOf? (date ++ ' ' :: time)).map (·, rest)
    else (scalarOf? date).map (·, ' ' :: d :: rest)
  | (word, rest) => (scalarOf? word).map (·, rest)

end Handheld.Toml
