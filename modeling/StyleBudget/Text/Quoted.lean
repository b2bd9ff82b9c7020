/-
  Text in quotes, as messages show it.

  * `quoteMark` chooses the quote: single, unless the text holds a single
    quote and no double quote;
  * `escaped` writes one character: the backslash, the chosen quote, line
    feed, carriage return and tab with a backslash, and an unprintable
    character by its number in hexadecimal, two, four or eight digits wide;
  * `quoted` is the text in its quotes.
-/
import StyleBudget.Text.Printable

namespace StyleBudget

/-! ## Numbers in hexadecimal -/

/-- A number in lower-case hexadecimal, with zeros in front up to a width. -/
def hexPadded (width n : Nat) : List Char :=
  let digits := Nat.toDigits 16 n
  List.replicate (width - digits.length) '0' ++ digits

/-! ## Quoting -/

/-- The quote that needs the fewer escapes: a double quote only around a text
    that holds a single quote and no double one. -/
def quoteMark (cs : List Char) : Char :=
  if cs.contains '\'' && !cs.contains '"' then '"' else '\''

def escaped (mark c : Char) : List Char :=
  if c == mark || c == '\\' then ['\\', c]
  else if c == '\n' then ['\\', 'n']
  else if c == '\r' then ['\\', 'r']
  else if c == '\t' then ['\\', 't']
  else if isPrintable c then [c]
  else if c.toNat < 0x100 then '\\' :: 'x' :: hexPadded 2 c.toNat
  else if c.toNat < 0x10000 then '\\' :: 'u' :: hexPadded 4 c.toNat
  else '\\' :: 'U' :: hexPadded 8 c.toNat

def quotedChars (cs : List Char) : List Char :=
  let mark := quoteMark cs
  mark :: cs.flatMap (escaped mark) ++ [mark]

def quoted (s : String) : String := String.ofList (quotedChars s.toList)

end StyleBudget
