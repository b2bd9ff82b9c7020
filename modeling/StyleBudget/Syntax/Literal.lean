/-
  The values that lexemes stand for.

  * `numberScalar`, `stringScalar` and `wordScalar` are the values of a number,
    of a string without its quotes, and of a name;
  * `overlongDigits?` tells an integer with more digits than an integer may
    have;
  * `declarationOf` and `selectorsOf` take a declaration and a selector list
    apart.
-/
import StyleBudget.Decimal.Literal
import StyleBudget.Syntax.Lexeme
import StyleBudget.Sheet

namespace StyleBudget

/-! ## Scalars -/

/-- The value of a number: a double if it has a point, an integer otherwise. -/
def numberScalar (l : List Char) : Scalar :=
  let (hyphen, body) := takeHyphen l
  match cutAt? '.' body with
  | some (whole, fraction) =>
    let x := decimalToFloat ((digitsValue? (whole ++ fraction)).getD 0) (-fraction.length)
    .float (if hyphen.isEmpty then x else -x)
  | none =>
    let n : Int := (digitsValue? body).getD 0
    .int (if hyphen.isEmpty then n else -n)

/-- The number of digits of an integer that has more of them than
    `maxIntegerDigits`. -/
def overlongDigits? (l : List Char) : Option Nat :=
  let digits := (takeHyphen l).2
  if !digits.contains '.' && maxIntegerDigits < digits.length then some digits.length else none

def unquoted (l : List Char) : String := String.ofList (l.drop 1).dropLast

def stringScalar (l : List Char) : Scalar := .text (unquoted l)

/-- The value of a name: three names stand for themselves no longer. -/
def wordScalar (l : List Char) : Scalar :=
  match String.ofList l with
  | "true" => .bool true
  | "false" => .bool false
  | "null" => .null
  | s => .text s

/-! ## Names -/

def unmarked (l : List Char) : String := String.ofList (l.drop 1)

/-- An argument that is a name, without percent signs in front of it. -/
def argumentName (l : List Char) : String := String.ofList (l.dropWhile (· == '%'))

/-! ## Declarations and selector lists -/

/-- The name before the first colon of a declaration and the value after it,
    both without white space around them. -/
def declarationOf (l : List Char) : Declaration :=
  let body := dropEndWhile (· == ';') (trim l)
  match cutAt? ':' body with
  | some (name, value) => ⟨String.ofList (trim name), String.ofList (trim value)⟩
  | none => ⟨String.ofList (trim body), ""⟩

/-- The selectors of a list: its parts between commas, blank ones left out, with
    every run of white space written as one space. -/
def selectorsOf (l : List Char) : List String :=
  ((l.splitOn ',').filter fun part => !(trim part).isEmpty).map fun part =>
    String.ofList (squeeze part)

theorem ne_empty_of_mem_selectorsOf {l : List Char} {s : String} (h : s ∈ selectorsOf l) :
    s ≠ "" := by
  obtain ⟨part, hp, rfl⟩ := List.mem_map.1 h
  have ht : trim part ≠ [] := by simpa using (List.mem_filter.1 hp).2
  rintro hs
  have hsq : squeeze part = [] := by
    rw [← String.toList_ofList (l := squeeze part), hs]; rfl
  refine ht (trim_of_blank fun c hc => ?_)
  cases hb : isBlank c with
  | true => rfl
  | false => exact absurd (hsq ▸ mem_squeeze hc hb) List.not_mem_nil

end StyleBudget
