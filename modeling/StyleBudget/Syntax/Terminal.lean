/-
  The terminals of the style sheet language.

  * `Terminal` lists them, `Terminal.label` names them in messages;
  * `Terminal.skipped` are white space and comments, which may stand between
    any two others;
  * `Terminal.ranked` is the order in which they are tried.
-/

namespace StyleBudget

/-! ## Terminals -/

inductive Terminal where
  | declaration
  | selector
  | name
  | dollarName
  | blockComment
  | placeholder
  | number
  | string
  | space
  | flag
  | lineComment
  | includeWord
  | extendWord
  | colon
  | comma
  | openBrace
  | openParen
  | closeBrace
  | closeParen
  | semicolon
  deriving DecidableEq, Repr

namespace Terminal

def label : Terminal → String
  | declaration => "DECLARATION"
  | selector => "SELECTOR"
  | name => "NAME"
  | dollarName => "VARIABLE"
  | blockComment => "BLOCK_COMMENT"
  | placeholder => "PLACEHOLDER"
  | number => "NUMBER"
  | string => "STRING"
  | space => "WS"
  | flag => "FLAG"
  | lineComment => "LINE_COMMENT"
  | includeWord => "__ANON_0"
  | extendWord => "__ANON_1"
  | colon => "COLON"
  | comma => "COMMA"
  | openBrace => "LBRACE"
  | openParen => "LPAR"
  | closeBrace => "RBRACE"
  | closeParen => "RPAR"
  | semicolon => "SEMICOLON"

/-- The name of a terminal where keywords are shown as they are written. -/
def writtenLabel : Terminal → String
  | includeWord => "\"@include\""
  | extendWord => "\"@extend\""
  | t => t.label

/-- White space and comments carry no meaning. -/
def skipped : Terminal → Bool
  | space | lineComment | blockComment => true
  | _ => false

/-- All terminals in the order in which they are tried. -/
def ranked : List Terminal :=
  [declaration, selector, name, dollarName, blockComment, placeholder, number, string, space,
    flag, lineComment, includeWord, extendWord, colon, comma, openBrace, openParen, closeBrace,
    closeParen, semicolon]

theorem mem_ranked (t : Terminal) : t ∈ ranked := by
  cases t <;> decide

end Terminal

end StyleBudget
