/-
  The style sheet that is written.

  * `ruleText` and `sheetText` write rules, with an empty line between each two;
  * `stringLiteral` writes a text as a string of the language;
  * `overlayRule` is the rule that shows a report on top of the page.
-/
import StyleBudget.Sheet

namespace StyleBudget

/-! ## Rules -/

def declarationText (d : Declaration) : String := "  " ++ d.name ++ ": " ++ d.value ++ ";\n"

/-- A rule, each of its selectors and declarations on a line of its own. -/
def ruleText (selectors : List String) (declarations : List Declaration) : String :=
  ",\n".intercalate selectors ++ " \x7b\n" ++ String.join (declarations.map declarationText)
    ++ "\x7d\n"

def sheetText (blocks : List String) : String := "\n".intercalate blocks

/-! ## Strings -/

/-- One character inside a string: backslash and quote with a backslash, a line
    feed as an escape that ends with a space. -/
def literalChar (c : Char) : List Char :=
  if c = '\\' then ['\\', '\\']
  else if c = '"' then ['\\', '"']
  else if c = '\n' then ['\\', 'A', ' ']
  else [c]

def stringLiteral (text : String) : String :=
  String.ofList ('"' :: text.toList.flatMap literalChar ++ ['"'])

/-! ## The overlay -/

/-- The look of the overlay: a fixed panel above everything else. -/
def overlayLook : List Declaration :=
  [⟨"position", "fixed"⟩, ⟨"top", "0"⟩, ⟨"right", "0"⟩, ⟨"left", "0"⟩,
    ⟨"z-index", "2147483647"⟩, ⟨"max-height", "100vh"⟩, ⟨"overflow", "auto"⟩,
    ⟨"padding", "1em"⟩, ⟨"background", "rgba(255, 255, 255, 0.95)"⟩, ⟨"color", "#222"⟩,
    ⟨"font", "12px/1.4 monospace"⟩, ⟨"white-space", "pre"⟩]

def overlayRule (report : String) : String :=
  ruleText ["body::before"] (⟨"content", stringLiteral report⟩ :: overlayLook)

end StyleBudget
