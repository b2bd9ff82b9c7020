/-
  The shortest decimal that reads back as a given binary number, and its text.

  A number `m * 2 ^ q` is read back from every decimal between its two
  midpoints, the ends included if `m` is even (`Binary.holds`).  On the grid of
  the multiples of `10 ^ e`, only the two neighbours of the number can be
  nearest to it (`Binary.onGrid?`).

  * `Binary.shortest` takes the coarsest grid with a hit: one digit first,
    seventeen at most;
  * `Decimal.render` writes a decimal as a `Layout` says;
  * `floatText` is the text of a double: `1.0`, `1e-05`, `1e+16`, `-0.0`,
    `inf`, `nan`.
-/

namespace StyleBudget

/-! ## Binary and decimal numbers -/

/-- The number `mantissa * 2 ^ exponent`; `edge` tells that the next smaller
    double is only half as far away as the next larger one. -/
structure Binary where
  mantissa : Nat
  exponent : Int
  edge : Bool
  deriving DecidableEq, Repr

/-- The number `digits * 10 ^ exponent`. -/
structure Decimal where
  digits : Nat
  exponent : Int
  deriving DecidableEq, Repr

/-! ## The interval that reads back -/

/-- A quarter of the last place of the mantissa, times `scaleDown`. -/
def Binary.quarter (b : Binary) : Nat := Nat.pow 2 (b.exponent - 2).toNat

/-- The common denominator of the number and its midpoints. -/
def Binary.scaleDown (b : Binary) : Nat := Nat.pow 2 (2 - b.exponent).toNat

/-- The number itself, times `scaleDown`. -/
def Binary.centre (b : Binary) : Nat := 4 * b.mantissa * b.quarter

/-- The midpoint to the next smaller double, times `scaleDown`. -/
def Binary.low (b : Binary) : Nat := b.centre - (if b.edge then 1 else 2) * b.quarter

/-- The midpoint to the next larger double, times `scaleDown`. -/
def Binary.high (b : Binary) : Nat := b.centre + 2 * b.quarter

/-- The multiple `k * 10 ^ e` reads back as the number. -/
def Binary.holds (b : Binary) (e : Int) (k : Nat) : Bool :=
  let point := k * Nat.pow 10 e.toNat * b.scaleDown
  let low := b.low * Nat.pow 10 (-e).toNat
  let high := b.high * Nat.pow 10 (-e).toNat
  if b.mantissa % 2 == 0 then low ≤ point && point ≤ high else low < point && point < high

/-! ## The shortest decimal -/

/-- The neighbour of the number among the multiples of `10 ^ e` that reads
    back; of two the nearer one, and at equal distance the even one. -/
def Binary.onGrid? (b : Binary) (e : Int) : Option Decimal :=
  let num := b.centre * Nat.pow 10 (-e).toNat
  let den := b.scaleDown * Nat.pow 10 e.toNat
  let k := num / den
  let twice := 2 * (num % den)
  match b.holds e k, b.holds e (k + 1) with
  | true, true =>
    if twice < den || (twice == den && k % 2 == 0) then some ⟨k, e⟩ else some ⟨k + 1, e⟩
  | true, false => some ⟨k, e⟩
  | false, true => some ⟨k + 1, e⟩
  | false, false => none

/-- The number of factors of ten, `limit` at most, that bring `num` up to `den`. -/
def tensUpTo (num den : Nat) : Nat → Nat
  | 0 => 0
  | limit + 1 => if den ≤ num then 0 else tensUpTo (10 * num) den limit + 1

/-- The exponent of ten just above the number. -/
def Binary.magnitude (b : Binary) : Int :=
  if b.scaleDown ≤ b.centre then ((b.centre / b.scaleDown).repr.length : Int)
  else 1 - (tensUpTo b.centre b.scaleDown 400 : Int)

/-- The decimal with the fewest digits that reads back as the number. -/
def Binary.shortest (b : Binary) : Decimal :=
  ((List.range 17).findSome? fun (i : Nat) => b.onGrid? (b.magnitude - (i + 1 : Nat))).getD
    ⟨b.mantissa, b.exponent⟩

/-! ## Decimals as text -/

/-- How a decimal is written: the exponents for which it is written without a
    power of ten, and the least width of a written exponent. -/
structure Layout where
  positionalFrom : Int
  positionalBelow : Int
  exponentWidth : Nat

/-- A decimal in digits, with a point and at least one digit on each side of
    it, or with a power of ten. -/
def Decimal.render (layout : Layout) (d : Decimal) : String :=
  let ds := dropZeros d.digits.repr.toList
  let point : Int := d.digits.repr.length + d.exponent
  let lead := point - 1
  if layout.positionalFrom ≤ lead && lead < layout.positionalBelow then
    if point ≤ 0 then
      "0." ++ String.ofList (List.replicate (-point).toNat '0' ++ ds)
    else if ds.length ≤ point.toNat then
      String.ofList (ds ++ List.replicate (point.toNat - ds.length) '0') ++ ".0"
    else
      String.ofList (ds.take point.toNat) ++ "." ++ String.ofList (ds.drop point.toNat)
  else
    let fraction := ds.drop 1
    let size := lead.natAbs.repr
    String.ofList (ds.take 1)
      ++ (if fraction.isEmpty then "" else "." ++ String.ofList fraction)
      ++ (if lead < 0 then "e-" else "e+")
      ++ String.ofList (List.replicate (layout.exponentWidth - size.length) '0') ++ size
where
  dropZeros (ds : List Char) : List Char := (ds.reverse.dropWhile (· == '0')).reverse

/-! ## Doubles as text -/

/-- The parts of a positive double with the given exponent and fraction bits. -/
def Binary.ofFields (exponent fraction : Nat) : Binary :=
  if exponent == 0 then ⟨fraction, -1074, false⟩
  else ⟨Nat.pow 2 52 + fraction, (exponent : Int) - 1075, fraction == 0 && 1 < exponent⟩

/-- Decimal exponents from -4 to 15 are written positionally, and a power of
    ten has at least two digits. -/
def floatLayout : Layout := ⟨-4, 16, 2⟩

def floatText (x : Float) : String :=
  let bits := x.toBits.toNat
  let exponent := bits / Nat.pow 2 52 % Nat.pow 2 11
  let fraction := bits % Nat.pow 2 52
  let sign := if bits / Nat.pow 2 63 == 1 then "-" else ""
  if exponent == 2047 then
    if fraction == 0 then sign ++ "inf" else "nan"
  else if exponent == 0 && fraction == 0 then sign ++ "0.0"
  else sign ++ (Binary.ofFields exponent fraction).shortest.render floatLayout

end StyleBudget
