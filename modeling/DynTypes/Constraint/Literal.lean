/-!
# Literals of equality constraints

A literal in double quotes is compared with the plain text of a value. A bare one is compared with
the text that a value has in a definition, where a symbol carries its colon.
-/

namespace DynTypes

/-- What an equality constraint compares with. -/
inductive Literal where
  /-- A text that is written in double quotes. -/
  | text (value : String)
  /-- A token that is written bare. -/
  | token (value : String)
deriving DecidableEq, Repr

namespace Literal

/-- Puts a backslash in front of every quote, and in front of every backslash that would otherwise
be taken for the start of an escape. -/
def escape : List Char → List Char
  | [] => []
  | '"' :: rest => '\\' :: '"' :: escape rest
  | '\\' :: [] => ['\\', '\\']
  | '\\' :: c :: rest =>
    if c = '"' ∨ c = '\\' then '\\' :: '\\' :: escape (c :: rest)
    else '\\' :: escape (c :: rest)
  | c :: rest => c :: escape rest

/-- Takes away the backslash in front of a quote or of another backslash. -/
def unescape : List Char → List Char
  | [] => []
  | '\\' :: '"' :: rest => '"' :: unescape rest
  | '\\' :: '\\' :: rest => '\\' :: unescape rest
  | c :: rest => c :: unescape rest

/-- The text between two quotes at the ends of a text. -/
def unquote? : List Char → Option (List Char)
  | '"' :: rest => if rest.getLast? = some '"' then some rest.dropLast else none
  | _ => none

def parse (raw : String) : Literal :=
  match unquote? raw.toList with
  | some inner => text (String.ofList (unescape inner))
  | none => token raw

def render : Literal → List Char
  | text value => '"' :: escape value.toList ++ ['"']
  | token value => value.toList

end Literal

end DynTypes
