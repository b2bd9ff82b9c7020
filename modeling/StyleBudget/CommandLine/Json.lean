/-
  Usage as JSON.

  * `jsonString` writes a string in ASCII: what is no printable ASCII character
    is written by its UTF-16 units;
  * `jsonUsage` writes budgets, placeholders and consumers, two spaces deeper at
    every level.
-/
import StyleBudget.Text.Quoted
import StyleBudget.Usage

namespace StyleBudget

/-! ## Strings -/

def utf16Units (c : Char) : List Nat :=
  let n := c.toNat
  if n < 0x10000 then [n] else [0xd800 + (n - 0x10000) / 0x400, 0xdc00 + (n - 0x10000) % 0x400]

def jsonChar (c : Char) : List Char :=
  if c == '"' || c == '\\' then ['\\', c]
  else if c == '\n' then ['\\', 'n']
  else if c == '\r' then ['\\', 'r']
  else if c == '\t' then ['\\', 't']
  else if c == '\x08' then ['\\', 'b']
  else if c == '\x0c' then ['\\', 'f']
  else if 32 ≤ c.toNat && c.toNat < 127 then [c]
  else (utf16Units c).flatMap fun u => '\\' :: 'u' :: hexPadded 4 u

def jsonString (s : String) : String :=
  String.ofList ('"' :: s.toList.flatMap jsonChar ++ ['"'])

/-! ## Containers -/

/-- The white space in front of an item at some depth. -/
def jsonIndent (depth : Nat) : String := String.ofList (List.replicate (2 * depth) ' ')

/-- Items between an opening and a closing mark, one a line, `depth` levels deep. -/
def jsonBlock (opening closing : String) (depth : Nat) (items : List String) : String :=
  if items.isEmpty then opening ++ closing
  else
    opening ++ "\n"
      ++ ",\n".intercalate (items.map (jsonIndent (depth + 1) ++ ·))
      ++ "\n" ++ jsonIndent depth ++ closing

def jsonObject (depth : Nat) (entries : List (String × String)) : String :=
  jsonBlock "\x7b" "\x7d" depth (entries.map fun p => jsonString p.1 ++ ": " ++ p.2)

def jsonStrings (depth : Nat) (items : List String) : String :=
  jsonBlock "[" "]" depth (items.map jsonString)

/-! ## Usage -/

def jsonUsage (u : Usage) : String :=
  jsonObject 0 <| u.budgets.entries.map fun budget =>
    (budget.1, jsonObject 1 <| budget.2.entries.map fun placeholder =>
      (placeholder.1, jsonStrings 2 placeholder.2))

end StyleBudget
