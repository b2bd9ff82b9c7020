/-
  Decimal digits of every script.

  * `digitValue?` is the value of a digit: in each script the ten digits are
    ten consecutive characters, from `0` to `9`;
  * `digitZeros` holds the zeros outside ASCII, in ascending order;
  * `digitsValue?` is the number that a row of digits writes.
-/

namespace StyleBudget

/-! ## One digit -/

/-- The digits zero outside ASCII. -/
def digitZeros : List Nat :=
  [1632, 1776, 1984, 2406, 2534, 2662, 2790, 2918, 3046, 3174, 3302, 3430, 3558, 3664, 3792,
   3872, 4160, 4240, 6112, 6160, 6470, 6608, 6784, 6800, 6992, 7088, 7232, 7248, 42528, 43216,
   43264, 43472, 43504, 43600, 44016, 65296, 66720, 68912, 69734, 69872, 69942, 70096, 70384,
   70736, 70864, 71248, 71360, 71472, 71904, 72016, 72784, 73040, 73120, 92768, 92864, 93008,
   120782, 120792, 120802, 120812, 120822, 123200, 123632, 125264, 130032]

/-- The value of a decimal digit of any script. -/
def digitValue? (c : Char) : Option Nat :=
  if c.toNat < 128 then
    if c.isDigit then some (c.toNat - 48) else none
  else (digitZeros.find? fun z => z ≤ c.toNat && c.toNat < z + 10).map (c.toNat - ·)

def isDecimalDigit (c : Char) : Bool := (digitValue? c).isSome

/-! ## A row of digits -/

/-- The number that a row of digits writes after the number `n`; nothing if
    some character is no digit. -/
def digitsValueFrom? (n : Nat) : List Char → Option Nat
  | [] => some n
  | c :: cs => (digitValue? c).bind fun d => digitsValueFrom? (10 * n + d) cs

/-- The number that a row of digits writes; an empty row writes zero. -/
def digitsValue? (cs : List Char) : Option Nat := digitsValueFrom? 0 cs

end StyleBudget
