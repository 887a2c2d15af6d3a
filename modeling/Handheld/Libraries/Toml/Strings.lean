import Handheld.Text.Hexadecimal

/-!
The four ways to write a string: between quotes with escapes, between apostrophes without, and each
of them over several lines between three marks. `writeString` chooses one, and the readers read any.
-/

namespace Handheld.Toml

def plainChar (c : Char) : Bool := c == '\t' || (' ' ≤ c && c != '\x7f')

def scalar? (n : Nat) : Option Char := if n.isValidChar then some (Char.ofNat n) else none

def coded? (digits : List Char) : Option Char := (Hexadecimal.valueFrom? 0 digits).bind scalar?

def escaped? (c : Char) : Option Char :=
  match c with
  | 'b' => some '\x08'
  | 't' => some '\t'
  | 'n' => some '\n'
  | 'f' => some '\x0c'
  | 'r' => some '\r'
  | 'e' => some '\x1b'
  | '"' => some '"'
  | '\\' => some '\\'
  | _ => none

def consRead (c : Option Char) (rest : Option (List Char × List Char)) :
    Option (List Char × List Char) := do
  let c ← c
  let (s, rest) ← rest
  return (c :: s, rest)

def readBasic : List Char → Option (List Char × List Char)
  | '"' :: rest => some ([], rest)
  | '\\' :: 'x' :: a :: b :: rest => consRead (coded? [a, b]) (readBasic rest)
  | '\\' :: 'u' :: a :: b :: c :: d :: rest => consRead (coded? [a, b, c, d]) (readBasic rest)
  | '\\' :: 'U' :: a :: b :: c :: d :: e :: f :: g :: h :: rest =>
    consRead (coded? [a, b, c, d, e, f, g, h]) (readBasic rest)
  | '\\' :: c :: rest => consRead (escaped? c) (readBasic rest)
  | c :: rest => if plainChar c then consRead (some c) (readBasic rest) else none
  | [] => none

def readLiteral : List Char → Option (List Char × List Char)
  | '\'' :: rest => some ([], rest)
  | c :: rest => if plainChar c then consRead (some c) (readLiteral rest) else none
  | [] => none

def isBlank (c : Char) : Bool := c == ' ' || c == '\t'

def lineEnds : List Char → Bool
  | ' ' :: rest => lineEnds rest
  | '\t' :: rest => lineEnds rest
  | '\n' :: _ => true
  | '\r' :: '\n' :: _ => true
  | _ => false

/-- Reads a string of several lines up to its three closing quotes, in front of which it may have
two of its own. Line ends of one character and of two are kept as they are. A backslash at the end
of a line drops all blanks and line ends up to the next other character; the flag says that they are
being dropped. -/
def readLines : Bool → List Char → Option (List Char × List Char)
  | _, '"' :: '"' :: '"' :: '"' :: '"' :: rest => some (['"', '"'], rest)
  | _, '"' :: '"' :: '"' :: '"' :: rest => some (['"'], rest)
  | _, '"' :: '"' :: '"' :: rest => some ([], rest)
  | true, ' ' :: rest => readLines true rest
  | true, '\t' :: rest => readLines true rest
  | true, '\n' :: rest => readLines true rest
  | true, '\r' :: '\n' :: rest => readLines true rest
  | _, '\n' :: rest => consRead (some '\n') (readLines false rest)
  | _, '\r' :: '\n' :: rest => consRead (some '\r') (consRead (some '\n') (readLines false rest))
  | _, '\\' :: 'x' :: a :: b :: rest => consRead (coded? [a, b]) (readLines false rest)
  | _, '\\' :: 'u' :: a :: b :: c :: d :: rest =>
    consRead (coded? [a, b, c, d]) (readLines false rest)
  | _, '\\' :: 'U' :: a :: b :: c :: d :: e :: f :: g :: h :: rest =>
    consRead (coded? [a, b, c, d, e, f, g, h]) (readLines false rest)
  | _, '\\' :: c :: rest =>
    if lineEnds (c :: rest) then readLines true (c :: rest)
    else consRead (escaped? c) (readLines false rest)
  | _, c :: rest => if plainChar c then consRead (some c) (readLines false rest) else none
  | _, [] => none

def readLiteralLines : List Char → Option (List Char × List Char)
  | '\'' :: '\'' :: '\'' :: '\'' :: '\'' :: rest => some (['\'', '\''], rest)
  | '\'' :: '\'' :: '\'' :: '\'' :: rest => some (['\''], rest)
  | '\'' :: '\'' :: '\'' :: rest => some ([], rest)
  | '\n' :: rest => consRead (some '\n') (readLiteralLines rest)
  | '\r' :: '\n' :: rest => consRead (some '\r') (consRead (some '\n') (readLiteralLines rest))
  | c :: rest => if plainChar c then consRead (some c) (readLiteralLines rest) else none
  | [] => none

def dropLineEnd : List Char → List Char
  | '\n' :: rest => rest
  | '\r' :: '\n' :: rest => rest
  | cs => cs

def readString : List Char → Option (List Char × List Char)
  | '"' :: '"' :: '"' :: rest => readLines false (dropLineEnd rest)
  | '"' :: rest => readBasic rest
  | '\'' :: '\'' :: '\'' :: rest => readLiteralLines (dropLineEnd rest)
  | '\'' :: rest => readLiteral rest
  | _ => none

def longestRun (c : Char) (s : List Char) : Nat :=
  let (_, longest) := s.foldl (fun (run, longest) x =>
    let run := if x == c then run + 1 else 0
    (run, max longest run)) (0, 0)
  longest

def needsEscape (c : Char) : Bool := (c < ' ' && c != '\t' && c != '\n') || c == '\x7f'

def escapeChar (c : Char) : List Char :=
  match c with
  | '\x08' => ['\\', 'b']
  | '\t' => ['\\', 't']
  | '\n' => ['\\', 'n']
  | '\x0c' => ['\\', 'f']
  | '\r' => ['\\', 'r']
  | '"' => ['\\', '"']
  | '\\' => ['\\', '\\']
  | c => if needsEscape c then '\\' :: 'u' :: Hexadecimal.digits 4 c.toNat else [c]

def writeBasic (s : List Char) : List Char := '"' :: s.flatMap escapeChar ++ ['"']

/-- The characters of a string of several lines, in which `quotes` of the last two may be quotes: a
third quote in a row is escaped. -/
def escapeLines (quotes : Nat) : List Char → List Char
  | [] => []
  | '\n' :: rest => '\n' :: escapeLines 0 rest
  | '"' :: rest => if quotes < 2 then '"' :: escapeLines (quotes + 1) rest
      else '\\' :: '"' :: escapeLines 0 rest
  | c :: rest => escapeChar c ++ escapeLines 0 rest

/-- A string of several lines between quotes. A line end is put in front of one that has any. -/
def writeLines (s : List Char) : List Char :=
  ['"', '"', '"'] ++ (if s.contains '\n' then ['\n'] else []) ++ escapeLines 0 s ++ ['"', '"', '"']

def writeLiteral (s : List Char) : List Char := '\'' :: s ++ ['\'']

def writeLiteralLines (s : List Char) : List Char :=
  ['\'', '\'', '\''] ++ (if s.contains '\n' then ['\n'] else []) ++ s ++ ['\'', '\'', '\'']

/-- A string in the first form that takes it without escapes, or else between quotes. -/
def writeString (s : List Char) : List Char :=
  let coded := s.any needsEscape
  let lines := s.contains '\n'
  let backslash := s.contains '\\'
  if !coded && !backslash && !lines && longestRun '"' s = 0 then writeBasic s
  else if !coded && !lines && longestRun '\'' s = 0 then writeLiteral s
  else if !coded && !backslash && longestRun '"' s ≤ 2 then writeLines s
  else if !coded && longestRun '\'' s ≤ 2 then writeLiteralLines s
  else if lines then writeLines s
  else writeBasic s

end Handheld.Toml
