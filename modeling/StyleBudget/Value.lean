/-
  The values of variables and settings, and the text that messages show for
  them.

  * `Scalar` is a value without parts, `Value` also a list or a map whose
    entries keep their order;
  * `Value.shown` is the text of a value inside a message, strings in quotes;
  * `Scalar.keyText` is the bare text of a key, strings without quotes.
-/
import StyleBudget.Text.Quoted
import StyleBudget.Decimal.Shortest

namespace StyleBudget

/-! ## Values -/

/-- A value without parts. -/
inductive Scalar where
  | null
  | bool (b : Bool)
  | int (n : Int)
  | float (x : Float)
  | text (s : String)
  deriving DecidableEq

/-- A scalar, a list of values, or a map with scalar keys. -/
inductive Value where
  | scalar (s : Scalar)
  | list (items : List Value)
  | map (entries : List (Scalar × Value))

/-- The absent value. -/
def Value.null : Value := .scalar .null

instance : Inhabited Value := ⟨.null⟩

/-! ## Values in messages -/

def intText (n : Int) : String := if n < 0 then "-" ++ n.natAbs.repr else n.natAbs.repr

def boolText (b : Bool) : String := if b then "True" else "False"

def Scalar.shown : Scalar → String
  | .null => "None"
  | .bool b => boolText b
  | .int n => intText n
  | .float x => floatText x
  | .text s => quoted s

/-- A scalar as the name of an entry: a string stands for itself. -/
def Scalar.keyText : Scalar → String
  | .text s => s
  | s => s.shown

def bracketed (items : List String) : String := "[" ++ ", ".intercalate items ++ "]"

def braced (items : List String) : String := "\x7b" ++ ", ".intercalate items ++ "\x7d"

mutual

/-- A value as messages show it. -/
def Value.shown : Value → String
  | .scalar s => s.shown
  | .list items => bracketed (shownItems items)
  | .map entries => braced (shownEntries entries)

def shownItems : List Value → List String
  | [] => []
  | v :: rest => v.shown :: shownItems rest

def shownEntries : List (Scalar × Value) → List String
  | [] => []
  | (k, v) :: rest => (k.shown ++ ": " ++ v.shown) :: shownEntries rest

end

end StyleBudget
