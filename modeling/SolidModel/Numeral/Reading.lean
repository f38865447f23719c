import SolidModel.Text.Character

/-!
# Reading numbers

Integers and decimal numbers as a user may type them: blanks around, a sign, digits in which
single underscores part groups, and for decimal numbers a point, a power of ten, or the names of
the values that are not finite. A number of more than 4300 digits is not read as an integer.
-/

namespace SolidModel.Numeral

/-- Splits off a sign; the flag says that it is a minus. -/
def signed : List Char → Bool × List Char
  | '-' :: rest => (true, rest)
  | '+' :: rest => (false, rest)
  | rest => (false, rest)

/-- Digits in groups: each group starts and ends with a digit. -/
def digits? (cs : List Char) : Option (List Nat) :=
  match cs with
  | [] => some []
  | c :: '_' :: d :: rest => do
    let n ← Text.digitValue? c
    let others ← digits? (d :: rest)
    return n :: others
  | c :: rest => do
    let n ← Text.digitValue? c
    let others ← digits? rest
    return n :: others

/-- The number that digits stand for. -/
def ofDigits (digits : List Nat) : Nat := digits.foldl (fun n d => n * 10 + d) 0

/-- A sequence of digits that may not be missing. -/
def natural? (cs : List Char) : Option (List Nat) :=
  match digits? cs with
  | some (d :: rest) => some (d :: rest)
  | _ => none

/-- An integer as typed. -/
def readInt? (text : String) : Option Int := do
  let (minus, rest) := signed (Text.trimmed text.toList)
  let digits ← natural? rest
  if 4300 < digits.length then none
  else
    let n : Int := ofDigits digits
    return if minus then -n else n

/-- Can the character stand in a sequence of digits? -/
def inDigits (c : Char) : Bool := c == '_' || (Text.digitValue? c).isSome

/-- The power of ten behind a number: none, or `e` and an integer. -/
def exponent? : List Char → Option Int
  | [] => some 0
  | c :: rest =>
    if c == 'e' || c == 'E' then do
      let (minus, rest) := signed rest
      let digits ← natural? rest
      let n : Int := ofDigits digits
      return if minus then -n else n
    else none

/-- The double nearest to `n · 10 ^ exponent`. -/
def nearest (n : Nat) (exponent : Int) : Float :=
  .ofScientific n (exponent < 0) exponent.natAbs

/-- A decimal number without sign: digits, of which some stand before or after a point, and a
power of ten. -/
def unsigned? (cs : List Char) : Option Float := do
  let whole ← digits? (cs.takeWhile inDigits)
  let rest := cs.dropWhile inDigits
  let (places, rest) :=
    match rest with
    | '.' :: rest => (rest.takeWhile inDigits, rest.dropWhile inDigits)
    | _ => ([], rest)
  let places ← digits? places
  if whole.isEmpty && places.isEmpty then none
  else
    let exponent ← exponent? rest
    return nearest (ofDigits (whole ++ places)) (exponent - places.length)

/-- The names of the values that are not finite, in any case of letters. -/
def named? (cs : List Char) : Option Float :=
  let name := String.ofList (cs.map Char.toLower)
  if name = "inf" || name = "infinity" then some (1.0 / 0.0)
  else if name = "nan" then some (0.0 / 0.0)
  else none

/-- A decimal number as typed. -/
def readFloat? (text : String) : Option Float := do
  let (minus, rest) := signed (Text.trimmed text.toList)
  let magnitude ← (named? rest).orElse fun _ => unsigned? rest
  return if minus then -magnitude else magnitude

end SolidModel.Numeral
