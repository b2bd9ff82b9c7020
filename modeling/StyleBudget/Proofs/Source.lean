/-
  Style sheets as text.

  * `Statement.source` writes a statement, a rule in the layout of the output, and
    `Sheet.source` a sheet;
  * `Statement.canonical` tells the statements that the language can write, and
    `Sheet.canonical` the sheets: variables stand outside all rules and declarations inside
    of them, and names, strings, integers and selectors are such as can be read back.
-/
import StyleBudget.Css
import StyleBudget.Decimal.Literal
import StyleBudget.Selector

namespace StyleBudget

/-! ## Writing -/

/-- A text in quotes, in single ones if it holds a double one. -/
def stringSource (s : String) : String :=
  if s.toList.contains '"' then "'" ++ s ++ "'" else "\"" ++ s ++ "\""

def Scalar.source : Scalar → String
  | .null => "null"
  | .bool b => if b then "true" else "false"
  | .int n => intText n
  | .float x => floatText x
  | .text s => stringSource s

/-- An entry of a map; what is no scalar cannot be written in it. -/
def entrySource : Scalar × Value → String
  | (key, .scalar s) => key.keyText ++ ": " ++ s.source
  | (key, _) => key.keyText

/-- A value of a variable.  A map that is not empty ends with a comma if it is written in
    full. -/
def Value.source (full : Bool) : Value → String
  | .scalar s => s.source
  | .map entries =>
    "(" ++ ", ".intercalate (entries.map entrySource)
      ++ (if full && !entries.isEmpty then "," else "") ++ ")"
  | .list _ => ""

/-- The arguments of a call.  Without any there are parentheses if it is written in full. -/
def argumentsSource (full : Bool) : List String → String
  | [] => if full then "()" else ""
  | args => "(" ++ ", ".intercalate (args.map stringSource) ++ ")"

def flagSource (flag : String) : String := if flag.isEmpty then "" else " " ++ flag

mutual

/-- A statement as it is written, with its line end.  A rule is laid out as in the output,
    its statements one after the other between the braces. -/
def Statement.source (full : Bool) : Statement → String
  | .declaration d => declarationText d
  | .mixin name args => "@include " ++ name ++ argumentsSource full args ++ ";\n"
  | .extend placeholder flag => "@extend %" ++ placeholder ++ flagSource flag ++ ";\n"
  | .assign name value => "$" ++ name ++ ": " ++ value.source full ++ ";\n"
  | .rule selectors children =>
    ",\n".intercalate selectors ++ " \x7b\n" ++ sourceAll full children ++ "\x7d\n"

def sourceAll (full : Bool) : List Statement → String
  | [] => ""
  | s :: rest => s.source full ++ sourceAll full rest

end

/-- A sheet as it is written, an empty line between each two statements; `full` tells the
    statements that are written in full. -/
def Sheet.source (full : Nat → Bool) (sheet : Sheet) : String :=
  sheetText (sheet.statements.mapIdx fun i s => s.source (full i))

/-! ## What can be written -/

/-- A first character of a kind, and name characters. -/
def isWord (start : Char → Bool) : List Char → Bool
  | c :: cs => start c && cs.all isNameChar
  | [] => false

def isNameText (cs : List Char) : Bool :=
  isWord (fun c => isNameStart c || c == '%') (takeHyphen cs).2

def isFlagText : List Char → Bool
  | '!' :: c :: cs => c.isAlpha && cs.all Char.isAlpha
  | _ => false

/-- One of the two quotes is not in the text. -/
def isQuotable (s : String) : Bool := !(s.toList.contains '"' && s.toList.contains '\'')

def Scalar.canonical : Scalar → Bool
  | .null | .bool _ => true
  | .int n => (Nat.toDigits 10 n.natAbs).length ≤ maxIntegerDigits
  | .float _ => false
  | .text s => isQuotable s

def entryCanonical : Scalar × Value → Bool
  | (.text key, .scalar s) => isNameText key.toList && s.canonical
  | _ => false

def Value.canonical : Value → Bool
  | .scalar s => s.canonical
  | .map entries => decide (entries.map Prod.fst).Nodup && entries.all entryCanonical
  | .list _ => false

def Declaration.canonical (d : Declaration) : Bool :=
  isWord (fun c => c.isAlpha || c == '-') d.name.toList && trim d.value.toList == d.value.toList
    && d.value.toList.all fun c => !isBlockMark c

/-- A selector in normal form that a list can hold. -/
def isSelectorText (s : String) : Bool :=
  !s.isEmpty && normalizeSelector s == s && s.toList.all fun c => !(c == ',' || isBlockMark c)

/-- The text starts with no at sign, dollar sign or slash. -/
def opensRule (s : String) : Bool :=
  s.toList.head?.all fun c => !(c == '@' || c == '$' || c == '/')

def canonicalSelectors : List String → Bool
  | [] => false
  | first :: rest => opensRule first && (first :: rest).all isSelectorText

mutual

/-- A statement that can be written, inside a rule or outside all rules. -/
def Statement.canonical (inside : Bool) : Statement → Bool
  | .declaration d => inside && d.canonical
  | .mixin name args => isNameText name.toList && args.all isQuotable
  | .extend placeholder flag =>
    isWord isNameStart placeholder.toList && (flag.isEmpty || isFlagText flag.toList)
  | .assign name value => !inside && isWord isNameStart name.toList && value.canonical
  | .rule selectors children => canonicalSelectors selectors && canonicalAll children

/-- The statements of a rule. -/
def canonicalAll : List Statement → Bool
  | [] => true
  | s :: rest => s.canonical true && canonicalAll rest

end

/-- Each statement can be written: variables outside all rules only, declarations only inside
    of rules. -/
def Sheet.canonical (sheet : Sheet) : Bool := sheet.statements.all (Statement.canonical false)

end StyleBudget
