import DynTypes.Regex.CharSet
/-!
# Switches of regular expressions

The switches change what the parts of an expression mean, and whether white space in it counts.
-/

namespace DynTypes.Regex

/-- The switches that an expression is read under. -/
structure Flags where
  /-- Letters match in either case. -/
  ignoreCase : Bool := false
  /-- The anchors match at every line. -/
  multiLine : Bool := false
  /-- The dot matches line ends too. -/
  dotAll : Bool := false
  /-- A carriage return can end a line. -/
  crlf : Bool := false
  /-- Classes, case and word boundaries are those of all scripts, not of Latin letters alone. -/
  unicode : Bool := true
  /-- White space and comments in the expression do not count. -/
  extended : Bool := false
deriving DecidableEq, Repr

namespace Flags

/-- Puts the switch with some letter to a value, if there is one. The letter `U` swaps which
repetitions are lazy, which does not change whether a text matches. -/
def set? (flags : Flags) (letter : Char) (value : Bool) : Option Flags :=
  match letter with
  | 'i' => some { flags with ignoreCase := value }
  | 'm' => some { flags with multiLine := value }
  | 's' => some { flags with dotAll := value }
  | 'R' => some { flags with crlf := value }
  | 'u' => some { flags with unicode := value }
  | 'x' => some { flags with extended := value }
  | 'U' => some flags
  | _ => none

/-- A set under the case rule in force. -/
def fold (flags : Flags) (s : CharSet) : CharSet :=
  if flags.ignoreCase then
    if flags.unicode then s.foldCase else s.foldLatin
  else s

/-- The complement of a set. Without full scripts it would hold parts of characters, so there is
none. -/
def compl? (flags : Flags) (negated : Bool) (s : CharSet) : Option CharSet :=
  if negated then
    if flags.unicode then some s.compl else none
  else some s

/-- The characters of words. -/
def word (flags : Flags) : CharSet :=
  if flags.unicode then Text.isWordChar else CharSet.latinWord

/-- The set of a one-letter class in lower case. -/
def shorthandSet (flags : Flags) (letter : Char) : CharSet :=
  match letter with
  | 'd' => if flags.unicode then Text.isDecimalDigit else CharSet.latinDigit
  | 's' => if flags.unicode then Text.isWhiteSpace else CharSet.latinSpace
  | _ => flags.word

/-- Passes over what does not count in an extended expression: white space, and comments from
`#` to the end of the line. -/
def skipBlank : (inComment : Bool) → List Char → List Char
  | _, [] => []
  | true, c :: rest => skipBlank (c != '\n') rest
  | false, c :: rest =>
    if Text.isWhiteSpace c then skipBlank false rest
    else if c == '#' then skipBlank true rest
    else c :: rest

/-- The text without leading parts that do not count. -/
def skip (flags : Flags) (text : List Char) : List Char :=
  if flags.extended then skipBlank false text else text

/-- The character that counts next after the one at hand. In an extended expression white space
and a single `#` are passed over; if nothing else follows, the very next character counts. -/
def peek (flags : Flags) (rest : List Char) : Option Char :=
  if flags.extended then
    match rest.dropWhile Text.isWhiteSpace with
    | '#' :: more => (more.dropWhile Text.isWhiteSpace).head? <|> rest.head?
    | more => more.head? <|> rest.head?
  else rest.head?

end Flags

end DynTypes.Regex
