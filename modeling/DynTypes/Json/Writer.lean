import DynTypes.Json.Tree
import DynTypes.Text.Hexadecimal
/-!
# Writing JSON

The compact form has no white space at all. The indented form puts every item and member on a
line of its own, two blanks further in than its container.
-/

namespace DynTypes.Json

/-- One character of a written text. Only the quote, the backslash and control characters are
escaped. -/
def writeChar (c : Char) : List Char :=
  match c with
  | '"' => ['\\', '"']
  | '\\' => ['\\', '\\']
  | '\x08' => ['\\', 'b']
  | '\x0c' => ['\\', 'f']
  | '\n' => ['\\', 'n']
  | '\r' => ['\\', 'r']
  | '\t' => ['\\', 't']
  | c =>
    if c.toNat < 0x20 then
      ['\\', 'u', '0', '0', Text.hexDigit (c.toNat / 16), Text.hexDigit c.toNat]
    else [c]

/-- A text between quotes. -/
def writeText (text : String) : List Char :=
  '"' :: text.toList.flatMap writeChar ++ ['"']

/-- The text of a truth value. -/
def writeBool (value : Bool) : List Char :=
  (if value then "true" else "false").toList

mutual

/-- The compact form of a tree. -/
def compact : Json String Int → List Char
  | null => "null".toList
  | bool value => writeBool value
  | number value => value.repr.toList
  | text value => writeText value
  | array items => '[' :: [','].intercalate (compactItems items) ++ [']']
  | object members => '\x7b' :: [','].intercalate (compactMembers members) ++ ['\x7d']

def compactItems : List (Json String Int) → List (List Char)
  | [] => []
  | item :: rest => item.compact :: compactItems rest

def compactMembers : List (String × Json String Int) → List (List Char)
  | [] => []
  | (key, value) :: rest => (writeText key ++ ':' :: value.compact) :: compactMembers rest

end

/-- The start of a line at some level. -/
private def newLine (level : Nat) : List Char :=
  '\n' :: List.replicate (2 * level) ' '

/-- Lines at a level, between the brackets of their container one level up. -/
private def block (opening closing : Char) (level : Nat) (lines : List (List Char)) : List Char :=
  if lines.isEmpty then [opening, closing]
  else
    let body := [','].intercalate (lines.map (newLine (level + 1) ++ ·))
    opening :: body ++ newLine level ++ [closing]

mutual

/-- The indented form of a tree that starts at a level. -/
def indented (level : Nat) : Json String Int → List Char
  | null => "null".toList
  | bool value => writeBool value
  | number value => value.repr.toList
  | text value => writeText value
  | array items => block '[' ']' level (indentedItems (level + 1) items)
  | object members => block '\x7b' '\x7d' level (indentedMembers (level + 1) members)

def indentedItems (level : Nat) : List (Json String Int) → List (List Char)
  | [] => []
  | item :: rest => item.indented level :: indentedItems level rest

def indentedMembers (level : Nat) : List (String × Json String Int) → List (List Char)
  | [] => []
  | (key, value) :: rest =>
    (writeText key ++ ':' :: ' ' :: value.indented level) :: indentedMembers level rest

end

end DynTypes.Json
