/-
  Reading a style sheet, one terminal after the other.

  A `ReadState` holds what has been read: the `Phase` inside the statement that
  is being read, the rules that are still open, and the finished statements.

  * `ReadState.advance` goes on with a terminal and its lexeme, if the language
    allows it there;
  * `Phase.allowed` are the terminals that are looked for in a phase, which are
    sometimes more than `advance` takes;
  * `ReadState.accepted` are those that it takes.
-/
import StyleBudget.Syntax.Literal

namespace StyleBudget

/-! ## Phases -/

/-- What has been read of the statement at hand. -/
inductive Phase where
  /-- Before a statement at the start of the text or after a variable. -/
  | opening
  /-- After a closing brace, a mixin call or an extension. -/
  | between
  /-- After an opening brace or a declaration. -/
  | body
  /-- After the selectors of a rule. -/
  | ruleHead (selectors : List String)
  | assignName (name : String)
  | assignColon (name : String)
  | assignScalar (name : String) (value : Scalar)
  /-- In a map, before an entry or the end. -/
  | mapOpen (name : String) (entries : List (Scalar × Value))
  | mapKey (name : String) (entries : List (Scalar × Value)) (key : String)
  | mapColon (name : String) (entries : List (Scalar × Value)) (key : String)
  | mapEntry (name : String) (entries : List (Scalar × Value))
  | mapClosed (name : String) (entries : List (Scalar × Value))
  | includeWord
  | mixinName (name : String)
  | argumentsOpen (name : String)
  | argumentsComma (name : String) (args : List String)
  | argument (name : String) (args : List String)
  | argumentsClosed (name : String) (args : List String)
  | extendWord
  | extendTarget (placeholder : String)
  | extendFlag (placeholder flag : String)

/-- The terminals that are looked for in a phase. -/
def Phase.allowed : Phase → List Terminal
  | opening => [.selector, .dollarName, .includeWord, .extendWord]
  | between => [.declaration, .selector, .dollarName, .includeWord, .extendWord, .closeBrace]
  | body => [.declaration, .selector, .includeWord, .extendWord, .closeBrace]
  | ruleHead _ => [.openBrace]
  | assignName _ | mapKey .. => [.colon]
  | assignColon _ => [.openParen, .number, .string, .name]
  | mapColon .. => [.number, .string, .name]
  | assignScalar .. | mapEntry .. => [.comma, .closeParen, .semicolon]
  | mapOpen .. => [.name, .closeParen]
  | mapClosed .. => [.semicolon]
  | includeWord => [.name]
  | mixinName _ => [.openParen, .semicolon]
  | argumentsOpen _ => [.name, .string, .flag, .closeParen]
  | argumentsComma .. => [.name, .string, .flag]
  | argument .. => [.comma, .closeParen]
  | argumentsClosed .. | extendFlag .. => [.semicolon]
  | extendWord => [.placeholder]
  | extendTarget _ => [.flag, .semicolon]

/-! ## States -/

/-- A rule whose closing brace has not been read; its statements so far, the
    last one first. -/
structure OpenRule where
  selectors : List String
  children : List Statement

/-- What has been read so far. -/
structure ReadState where
  phase : Phase := .opening
  /-- The open rules, the innermost first. -/
  rules : List OpenRule := []
  /-- The finished statements outside all rules, the last one first. -/
  statements : List Statement := []
  /-- The number of digits of the first integer with too many of them. -/
  overlong : Option Nat := none

namespace ReadState

def enter (st : ReadState) (phase : Phase) : ReadState := { st with phase }

def finish (st : ReadState) (phase : Phase) (s : Statement) : ReadState :=
  match st.rules with
  | [] => { st with phase, statements := s :: st.statements }
  | r :: rs => { st with phase, rules := { r with children := s :: r.children } :: rs }

def openRule (st : ReadState) (selectors : List String) : ReadState :=
  { st with phase := .body, rules := ⟨selectors, []⟩ :: st.rules }

/-- The state after a closing brace, if some rule is open. -/
def closeRule? (st : ReadState) : Option ReadState :=
  match st.rules with
  | [] => none
  | r :: rs =>
    some ({ st with rules := rs }.finish .between (.rule r.selectors r.children.reverse))

/-- The scalar that a terminal stands for, and the state that has noted an
    integer with too many digits. -/
def scalar? (st : ReadState) (t : Terminal) (l : List Char) : Option (Scalar × ReadState) :=
  match t with
  | .number => some (numberScalar l, { st with overlong := st.overlong <|> overlongDigits? l })
  | .string => some (stringScalar l, st)
  | .name => some (wordScalar l, st)
  | _ => none

/-- The argument of a mixin call that a terminal stands for. -/
def argument? (t : Terminal) (l : List Char) : Option String :=
  match t with
  | .name => some (argumentName l)
  | .string => some (unquoted l)
  | .flag => some (String.ofList l)
  | _ => none

/-- The state after a terminal between two statements. -/
def start? (st : ReadState) (t : Terminal) (l : List Char) : Option ReadState :=
  match t with
  | .selector => some (st.enter (.ruleHead (selectorsOf l)))
  | .includeWord => some (st.enter .includeWord)
  | .extendWord => some (st.enter .extendWord)
  | .dollarName => if st.rules.isEmpty then some (st.enter (.assignName (unmarked l))) else none
  | .declaration =>
    if st.rules.isEmpty then none
    else some (st.finish .body (.declaration (declarationOf l)))
  | .closeBrace => st.closeRule?
  | _ => none

/-- The state after a terminal, if the language allows it there. -/
def advance (st : ReadState) (t : Terminal) (l : List Char) : Option ReadState :=
  match st.phase, t with
  | .opening, _ | .between, _ | .body, _ => st.start? t l
  | .ruleHead selectors, .openBrace => some (st.openRule selectors)
  | .assignName name, .colon => some (st.enter (.assignColon name))
  | .assignColon name, .openParen => some (st.enter (.mapOpen name []))
  | .assignColon name, _ =>
    (st.scalar? t l).map fun (value, st) => st.enter (.assignScalar name value)
  | .assignScalar name value, .semicolon =>
    some (st.finish .opening (.assign name (.scalar value)))
  | .mapOpen name entries, .name => some (st.enter (.mapKey name entries (String.ofList l)))
  | .mapOpen name entries, .closeParen => some (st.enter (.mapClosed name entries))
  | .mapKey name entries key, .colon => some (st.enter (.mapColon name entries key))
  | .mapColon name entries key, _ =>
    (st.scalar? t l).map fun (value, st) =>
      st.enter (.mapEntry name (insertPair (.text key) (.scalar value) entries))
  | .mapEntry name entries, .comma => some (st.enter (.mapOpen name entries))
  | .mapEntry name entries, .closeParen => some (st.enter (.mapClosed name entries))
  | .mapClosed name entries, .semicolon => some (st.finish .opening (.assign name (.map entries)))
  | .includeWord, .name => some (st.enter (.mixinName (String.ofList l)))
  | .mixinName name, .openParen => some (st.enter (.argumentsOpen name))
  | .mixinName name, .semicolon => some (st.finish .between (.mixin name []))
  | .argumentsOpen name, .closeParen => some (st.enter (.argumentsClosed name []))
  | .argumentsOpen name, _ => (argument? t l).map fun a => st.enter (.argument name [a])
  | .argumentsComma name args, _ =>
    (argument? t l).map fun a => st.enter (.argument name (args ++ [a]))
  | .argument name args, .comma => some (st.enter (.argumentsComma name args))
  | .argument name args, .closeParen => some (st.enter (.argumentsClosed name args))
  | .argumentsClosed name args, .semicolon => some (st.finish .between (.mixin name args))
  | .extendWord, .placeholder => some (st.enter (.extendTarget (unmarked l)))
  | .extendTarget placeholder, .flag =>
    some (st.enter (.extendFlag placeholder (String.ofList l)))
  | .extendTarget placeholder, .semicolon => some (st.finish .between (.extend placeholder ""))
  | .extendFlag placeholder flag, .semicolon =>
    some (st.finish .between (.extend placeholder flag))
  | _, _ => none

/-- The terminals with which the text can really go on. -/
def accepted (st : ReadState) : List Terminal :=
  st.phase.allowed.filter fun t => (st.advance t []).isSome

def isComplete (st : ReadState) : Bool :=
  match st.phase with
  | .opening | .between => st.rules.isEmpty
  | _ => false

end ReadState

end StyleBudget
