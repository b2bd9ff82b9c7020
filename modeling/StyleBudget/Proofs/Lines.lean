/-
  The output, line by line.

  A rule takes one line for each of its selectors, one for each of its declarations and one
  for its closing brace; between two rules there is an empty line.

  * `Block.lines` are the lines of a rule, `sheetLines` those of a sheet;
  * `linesText_sheetLines` says that these are what is written;
  * `mem_selectorLines`: every selector of a rule has a line of its own.
-/
import StyleBudget.Compile

namespace StyleBudget

/-! ## Lines -/

/-- A selector on each line: commas between them, and the opening brace at the end. -/
def selectorLines : List String → List String
  | [] => [" \x7b"]
  | [s] => [s ++ " \x7b"]
  | s :: t :: rest => (s ++ ",") :: selectorLines (t :: rest)

def declarationLine (d : Declaration) : String := "  " ++ d.name ++ ": " ++ d.value ++ ";"

def Block.lines (b : Block) : List String :=
  selectorLines b.selectors ++ b.declarations.map declarationLine ++ ["\x7d"]

/-- The lines of rules, with an empty one between each two. -/
def sheetLines : List Block → List String
  | [] => []
  | [b] => b.lines
  | b :: next :: rest => b.lines ++ "" :: sheetLines (next :: rest)

/-- Every selector has a line of its own. -/
theorem mem_selectorLines {selectors : List String} {s : String} (h : s ∈ selectors) :
    s ++ "," ∈ selectorLines selectors ∨ s ++ " \x7b" ∈ selectorLines selectors := by
  fun_induction selectorLines selectors with
  | case1 => cases h
  | case2 t =>
    obtain rfl := List.mem_singleton.1 h
    exact .inr (List.mem_singleton_self _)
  | case3 t u rest ih =>
    rcases List.mem_cons.1 h with rfl | h
    · exact .inl (List.mem_cons_self ..)
    · exact (ih h).imp (List.mem_cons_of_mem _) (List.mem_cons_of_mem _)

theorem Block.mem_lines_of_mem {b : Block} {line : String} (h : line ∈ selectorLines b.selectors) :
    line ∈ b.lines :=
  List.mem_append_left _ (List.mem_append_left _ h)

/-! ## Text -/

def Block.text (b : Block) : String := ruleText b.selectors b.declarations

/-- The rule of the overlay, as a block. -/
def overlayBlock (report : String) : Block :=
  ⟨["body::before"], ⟨"content", stringLiteral report⟩ :: overlayLook⟩

/-- The overlay behind its report, as it is written. -/
def lookText : String :=
  "  position: fixed;\n  top: 0;\n  right: 0;\n  left: 0;\n  z-index: 2147483647;\n" ++
    "  max-height: 100vh;\n  overflow: auto;\n  padding: 1em;\n" ++
    "  background: rgba(255, 255, 255, 0.95);\n  color: #222;\n  font: 12px/1.4 monospace;\n" ++
    "  white-space: pre;\n\x7d\n"

theorem linesText_cons (line : String) (lines : List String) :
    linesText (line :: lines) = line ++ "\n" ++ linesText lines := by
  rw [linesText, List.map_cons, String.join_cons]
  rfl

theorem linesText_append (lines more : List String) :
    linesText (lines ++ more) = linesText lines ++ linesText more := by
  rw [linesText, List.map_append, String.join_append]
  rfl

theorem linesText_singleton (line : String) : linesText [line] = line ++ "\n" := by
  rw [linesText_cons, linesText, List.map_nil, String.join_nil, String.append_empty]

theorem linesText_selectorLines (selectors : List String) :
    linesText (selectorLines selectors) = ",\n".intercalate selectors ++ " \x7b\n" := by
  have hopening : (" \x7b" ++ "\n" : String) = " \x7b\n" := by decide
  have hcomma : ("," ++ "\n" : String) = ",\n" := by decide
  fun_induction selectorLines selectors with
  | case1 => rw [linesText_singleton, hopening]; rfl
  | case2 s =>
    rw [linesText_singleton, String.intercalate_singleton, String.append_assoc, hopening]
  | case3 s t rest ih =>
    rw [linesText_cons, ih, String.intercalate_cons_cons]
    simp only [String.append_assoc, ← hcomma]

theorem declarationLine_append (d : Declaration) :
    declarationLine d ++ "\n" = declarationText d := by
  rw [declarationLine, declarationText, String.append_assoc]
  rfl

theorem linesText_declarations (declarations : List Declaration) :
    linesText (declarations.map declarationLine) =
      String.join (declarations.map declarationText) := by
  rw [linesText, List.map_map]
  simp only [Function.comp_def, declarationLine_append]

/-- The lines of a rule are its text. -/
theorem Block.linesText_lines (b : Block) : linesText b.lines = b.text := by
  rw [lines, linesText_append, linesText_append, linesText_selectorLines, linesText_declarations,
    text, ruleText]
  rfl

/-- **The lines of a sheet** are its text. -/
theorem linesText_sheetLines (blocks : List Block) :
    linesText (sheetLines blocks) = sheetText (blocks.map Block.text) := by
  fun_induction sheetLines blocks with
  | case1 => rfl
  | case2 b => rw [b.linesText_lines, List.map_singleton, sheetText, String.intercalate_singleton]
  | case3 b next rest ih =>
    have hnext : sheetText ((b :: next :: rest).map Block.text) =
        b.text ++ "\n" ++ sheetText ((next :: rest).map Block.text) :=
      String.intercalate_cons_cons
    rw [linesText_append, linesText_cons, ih, b.linesText_lines, hnext, String.empty_append,
      String.append_assoc]

end StyleBudget
