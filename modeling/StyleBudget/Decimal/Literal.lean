/-
  Numbers read from text: integers and doubles.

  * `readInteger?` reads a whole text as an integer: white space around it, a
    sign, decimal digits of any script with single underscores between them,
    and no more than `maxIntegerDigits` digits;
  * `readFloat?` reads a whole text as a double: the same digits, with a point
    and a power of ten, or one of the words `inf`, `infinity` and `nan`;
  * `decimalToFloat` is the double nearest to a decimal.
-/
import StyleBudget.Text.Blank
import StyleBudget.Text.Digit

namespace StyleBudget

/-! ## Digits with separators -/

/-- The greatest number of decimal digits of an integer in a text, read or written. -/
def maxIntegerDigits : Nat := 4300

/-- A number that can be written: it has no more digits than an integer may have. -/
def isWritable (n : Nat) : Bool := n.repr.length ≤ maxIntegerDigits

/-- The text without its underscores, if each of them stands between digits. -/
def dropSeparators? : List Char → Option (List Char)
  | [] => some []
  | '_' :: _ => none
  | [c] => some [c]
  | c :: '_' :: d :: rest =>
    if isDecimalDigit c && isDecimalDigit d then
      (dropSeparators? (d :: rest)).map (c :: ·)
    else none
  | c :: rest => (dropSeparators? rest).map (c :: ·)

/-- The sign at the front of a text, true for a minus, and what follows it. -/
def takeSign : List Char → Bool × List Char
  | '-' :: rest => (true, rest)
  | '+' :: rest => (false, rest)
  | cs => (false, cs)

/-! ## Integers -/

def readInteger? (cs : List Char) : Option Int :=
  let (negative, body) := takeSign (trim cs)
  (dropSeparators? body).bind fun digits =>
    if digits.isEmpty || maxIntegerDigits < digits.length then none
    else (digitsValue? digits).map fun n => if negative then -(n : Int) else n

/-! ## Doubles -/

/-- The double nearest to `digits * 10 ^ exponent`.  Far outside the range of
    doubles the answer is known without computing the power. -/
def decimalToFloat (digits : Nat) (exponent : Int) : Float :=
  let top := (digits.repr.length : Int) + exponent
  if digits == 0 || top < -400 then 0.0
  else if 400 < top then 1.0 / 0.0
  else Float.ofScientific digits (exponent < 0) exponent.natAbs

/-- The power of ten at the end of a number: nothing at all, or an `e` with a
    signed row of digits. -/
def readExponent? : List Char → Option Int
  | [] => some 0
  | c :: rest =>
    let (negative, digits) := takeSign rest
    if c.toLower == 'e' && !digits.isEmpty then
      (digitsValue? digits).map fun n => if negative then -(n : Int) else n
    else none

/-- The double that an unsigned text writes. -/
def readMagnitude? (cs : List Char) : Option Float :=
  let whole := cs.takeWhile isDecimalDigit
  let rest := cs.dropWhile isDecimalDigit
  let (fraction, rest) := match rest with
    | '.' :: more => (more.takeWhile isDecimalDigit, more.dropWhile isDecimalDigit)
    | _ => ([], rest)
  if whole.isEmpty && fraction.isEmpty then none
  else (readExponent? rest).bind fun exponent =>
    (digitsValue? (whole ++ fraction)).map fun digits =>
      decimalToFloat digits (exponent - fraction.length)

def readFloat? (cs : List Char) : Option Float :=
  let (negative, body) := takeSign (trim cs)
  let word := String.ofList (body.map Char.toLower)
  let magnitude :=
    if word == "inf" || word == "infinity" then some (1.0 / 0.0)
    else if word == "nan" then some (0.0 / 0.0)
    else (dropSeparators? body).bind readMagnitude?
  magnitude.map fun x => if negative then -x else x

end StyleBudget
