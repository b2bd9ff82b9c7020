/-
  Complaints: why a text is no style sheet.

  * `Complaint` tells four causes apart: a terminal that cannot stand where it
    was found (`misplaced`), the end of the text inside a statement
    (`unfinished`), a terminal that was not looked for (`unlooked`), and a
    character that starts no terminal (`unreadable`);
  * `Complaint.position` is the place of the fault;
  * `Complaint.message` says what was found and what could have stood there.
-/
import StyleBudget.Syntax.ReadState
import StyleBudget.Text.Position
import StyleBudget.Text.Quoted

namespace StyleBudget

/-! ## Complaints -/

/-- A lexeme of a terminal and the number of characters before it. -/
structure Token where
  terminal : Terminal
  lexeme : List Char
  offset : Nat

/-- A fault in a text. -/
inductive Complaint where
  /-- The terminal was looked for, and cannot stand there. -/
  | misplaced (found : Token) (st : ReadState)
  /-- The text ends inside a statement; the last terminal, if there was one. -/
  | unfinished (last : Option Token) (st : ReadState)
  /-- No terminal that was looked for is there, but some other one. -/
  | unlooked (found : Token) (last : Option Token) (st : ReadState)
  /-- No terminal at all is there. -/
  | unreadable (offset : Nat) (last : Option Token) (st : ReadState)

/-- The number of characters before the fault.  A text that ends too early is
    faulted at its last terminal. -/
def Complaint.offset : Complaint → Nat
  | .misplaced found _ => found.offset
  | .unfinished last _ => (last.map Token.offset).getD 0
  | .unlooked found _ _ => found.offset
  | .unreadable offset _ _ => offset

def Complaint.position (c : Complaint) (source : List Char) : Position :=
  .after (source.take c.offset)

/-! ## Messages -/

def tokenShown (label : String) (lexeme : List Char) : String :=
  "Token('" ++ label ++ "', " ++ String.ofList (quotedChars lexeme) ++ ")"

def Token.shown (t : Token) : String := tokenShown t.terminal.label t.lexeme

/-- What could have stood at the place of a fault, one name a line, in order. -/
def expectedLines (labels : List String) : String :=
  "Expected one of: \n"
    ++ String.join ((labels.mergeSort fun a b => !decide (b < a)).map fun l => "\t* " ++ l ++ "\n")

/-- The names of what can really follow, the end of the text among them. -/
def ReadState.acceptedLabels (st : ReadState) (label : Terminal → String) : List String :=
  st.accepted.map label ++ if st.isComplete then ["$END"] else []

def unexpectedToken (shown : String) (p : Position) : String :=
  "Unexpected token " ++ shown ++ " at line " ++ p.line.repr ++ ", column " ++ p.column.repr
    ++ ".\n"

/-- The characters of its line around a place, forty at most on each side, and
    a caret under the place. -/
def surroundings (before after : List Char) : String :=
  let before := lastLine (before.drop (before.length - 40))
  let after := firstLine (after.take 40)
  String.ofList (before ++ after) ++ "\n"
    ++ String.ofList (List.replicate (tabbedWidth before) ' ') ++ "^\n"

def Complaint.message (c : Complaint) (source : List Char) : String :=
  let p := c.position source
  match c with
  | .misplaced found st =>
    unexpectedToken found.shown p ++ expectedLines (st.acceptedLabels Terminal.label)
  | .unfinished _ st =>
    unexpectedToken (tokenShown "$END" []) p
      ++ expectedLines (st.acceptedLabels Terminal.label)
  | .unlooked found last st =>
    unexpectedToken found.shown p
      ++ expectedLines (st.acceptedLabels Terminal.writtenLabel)
      ++ "Previous tokens: [" ++ ((last.map Token.shown).getD "None") ++ "]\n"
  | .unreadable offset last st =>
    "No terminal matches '" ++ String.ofList ((source.drop offset).take 1)
      ++ "' in the current parser context, at line " ++ p.line.repr ++ " col " ++ p.column.repr
      ++ "\n\n" ++ surroundings (source.take offset) (source.drop offset)
      ++ expectedLines (st.phase.allowed.map Terminal.writtenLabel)
      ++ match last with
        | some t => "\nPrevious tokens: " ++ t.shown ++ "\n"
        | none => ""

end StyleBudget
