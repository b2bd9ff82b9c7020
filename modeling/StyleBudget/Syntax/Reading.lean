/-
  Reading a whole text as a style sheet.

  * `readFrom` takes lexemes from the front of the text, white space and
    comments without effect, and the others as `ReadState.advance` says;
  * `Sheet.read` is the sheet that a text writes, or why it writes none.
-/
import StyleBudget.Syntax.Complaint

namespace StyleBudget

/-! ## The walk over the text -/

/-- The fault of a text at whose front none of the allowed terminals stands. -/
def complaintAt (st : ReadState) (last : Option Token) (offset : Nat) (cs : List Char) :
    Complaint :=
  match firstLexeme? Terminal.ranked cs with
  | some (t, l) => .unlooked ⟨t, l, offset⟩ last st
  | none => .unreadable offset last st

/-- The state after the rest of the text; `last` is the last terminal and
    `offset` the number of characters already read. -/
def readFrom (st : ReadState) (last : Option Token) (offset : Nat) (cs : List Char) :
    Except Complaint ReadState :=
  if cs.isEmpty then
    if st.isComplete then .ok st else .error (.unfinished last st)
  else
    match h : firstLexeme? st.phase.allowed cs with
    | none => .error (complaintAt st last offset cs)
    | some (t, l) =>
      have := (Terminal.isLexeme (lexeme?_of_firstLexeme? h)).sub_length_lt
      if t.skipped then readFrom st last (offset + l.length) (cs.drop l.length)
      else
        match st.advance t l with
        | none => .error (.misplaced ⟨t, l, offset⟩ st)
        | some st => readFrom st (some ⟨t, l, offset⟩) (offset + l.length) (cs.drop l.length)
termination_by cs.length

/-! ## Sheets -/

/-- Why a text is no style sheet. -/
inductive ReadFault where
  | complaint (c : Complaint)
  /-- The text follows the language, but an integer has too many digits. -/
  | overlong (digits : Nat)

def overlongMessage (digits : Nat) : String :=
  "Error trying to process rule \"number\":\n\nExceeds the limit (" ++ maxIntegerDigits.repr
    ++ " digits) for integer string conversion: value has " ++ digits.repr
    ++ " digits; use sys.set_int_max_str_digits() to increase the limit"

/-- The sheet that has been read, unless an integer has too many digits. -/
def ReadState.sheet (st : ReadState) : Except ReadFault Sheet :=
  match st.overlong with
  | some digits => .error (.overlong digits)
  | none => .ok ⟨st.statements.reverse⟩

/-- The style sheet that a text writes. -/
def Sheet.read (source : List Char) : Except ReadFault Sheet :=
  match readFrom {} none 0 source with
  | .error c => .error (.complaint c)
  | .ok st => st.sheet

end StyleBudget
