/-
  Places in a text.

  * `Position.after` is the line and column that follow a piece of text: only
    a line feed ends a line, and both counts start at one;
  * `lastLine` and `firstLine` cut a text at its line feeds, `linesText` puts lines
    one after the other;
  * `tabbedWidth` is the width of a text whose tabs reach to the next multiple
    of eight.
-/

namespace StyleBudget

/-! ## Lines and columns -/

/-- A line and a column, both counted from one. -/
structure Position where
  line : Nat
  column : Nat
  deriving DecidableEq, Repr

def lastLine (cs : List Char) : List Char := (cs.reverse.takeWhile (· != '\n')).reverse

def firstLine (cs : List Char) : List Char := cs.takeWhile (· != '\n')

/-- Lines as a text, each with a line feed at its end. -/
def linesText (lines : List String) : String := String.join (lines.map (· ++ "\n"))

/-- The place right after a piece of text. -/
def Position.after (cs : List Char) : Position :=
  ⟨cs.count '\n' + 1, (lastLine cs).length + 1⟩

/-! ## Tabs -/

/-- The total width and the column that are reached from a width and a column
    by one character; a line end restarts the column. -/
def advanceTab (width column : Nat) (c : Char) : Nat × Nat :=
  if c == '\t' then (width + (8 - column % 8), column + (8 - column % 8))
  else if c == '\n' || c == '\r' then (width + 1, 0)
  else (width + 1, column + 1)

/-- The number of characters of a text whose tabs are written as spaces. -/
def tabbedWidth (cs : List Char) : Nat :=
  (cs.foldl (fun reached c => advanceTab reached.1 reached.2 c) (0, 0)).1

end StyleBudget
