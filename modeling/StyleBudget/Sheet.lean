/-
  Style sheets: rules with nested statements, variables, mixin calls and
  extensions of placeholders.

  * `Statement` and `Sheet` are the statements in source order;
  * `Sheet.assignments` is the table of variables, the last value of each;
  * `Sheet.walk` lists every statement, a rule before what stands in it.
-/
import StyleBudget.Table
import StyleBudget.Value

namespace StyleBudget

/-! ## Statements -/

structure Declaration where
  name : String
  value : String
  deriving DecidableEq, Repr

inductive Statement where
  /-- A property of the enclosing rule: `name: value;` -/
  | declaration (d : Declaration)
  /-- A mixin call: `@include name(args);` -/
  | mixin (name : String) (args : List String)
  /-- An extension of a placeholder: `@extend %placeholder flag;` -/
  | extend (placeholder flag : String)
  /-- A variable: `$name: value;` -/
  | assign (name : String) (value : Value)
  /-- A rule: a list of selectors and a block of statements. -/
  | rule (selectors : List String) (children : List Statement)

structure Sheet where
  statements : List Statement := []

/-! ## Views of a sheet -/

def Statement.declaration? : Statement → Option Declaration
  | .declaration d => some d
  | _ => none

def declarationsOf (children : List Statement) : List Declaration :=
  children.filterMap Statement.declaration?

theorem declarationsOf_declarations (ds : List Declaration) :
    declarationsOf (ds.map Statement.declaration) = ds := by
  rw [declarationsOf, List.filterMap_map]
  exact List.filterMap_some

def Statement.assignment? : Statement → Option (String × Value)
  | .assign name value => some (name, value)
  | _ => none

/-- The variables of a sheet: the last value of each, at the place of its
    first. -/
def Sheet.assignments (sheet : Sheet) : Table String Value :=
  .ofList (sheet.statements.filterMap Statement.assignment?)

mutual

/-- A statement and all that stands in it, each rule before its children. -/
def Statement.walk : Statement → List Statement
  | .rule selectors children => .rule selectors children :: walkAll children
  | .declaration d => [.declaration d]
  | .mixin name args => [.mixin name args]
  | .extend placeholder flag => [.extend placeholder flag]
  | .assign name value => [.assign name value]

/-- A block of statements, each followed by all that stands in it. -/
def walkAll : List Statement → List Statement
  | [] => []
  | s :: rest => s.walk ++ walkAll rest

end

def Sheet.walk (sheet : Sheet) : List Statement := walkAll sheet.statements

end StyleBudget
