import DynTypes.Definition.Error
/-!
# Delimited literals

Quoted texts `"…"` and regular expressions `/…/flags`. Between its delimiters a literal hides
every character from the grammar around it; only a backslash, which takes the next character with
it, and the closing delimiter count.
-/

namespace DynTypes

/-- The flags that a regular expression may carry behind its closing slash. -/
def literalFlags : List Char := ['i', 'm', 's', 'x']

/-- The kinds of delimited literals. -/
inductive Delimiter where
  /-- A text in double quotes. -/
  | quote
  /-- A regular expression between slashes, with flags behind them. -/
  | slash
deriving DecidableEq, Repr

namespace Delimiter

/-- The character that opens and closes a literal. -/
def toChar : Delimiter → Char
  | quote => '"'
  | slash => '/'

/-- The kind of literal that a character opens. -/
def ofChar? : Char → Option Delimiter
  | '"' => some quote
  | '/' => some slash
  | _ => none

@[simp] theorem ofChar?_toChar (d : Delimiter) : ofChar? d.toChar = some d := by
  cases d <;> rfl

/-- How many characters stand in front of the first closing delimiter that no backslash hides. -/
def bodyLength? (closing : Char) : List Char → Option Nat
  | [] => none
  | '\\' :: [] => none
  | '\\' :: _ :: rest => (bodyLength? closing rest).map (· + 2)
  | c :: rest => if c = closing then some 0 else (bodyLength? closing rest).map (· + 1)

/-- How many flags stand at the start of a text. -/
def flagsLength (text : List Char) : Nat :=
  (text.takeWhile literalFlags.contains).length

/-- How many characters of `rest` belong to the literal that `opener` opens, which is character
number `start` of `text` and stands in front of `rest`. -/
def span (text : List Char) (start : Nat) (opener : Char) (rest : List Char) :
    Except GrammarError Nat :=
  match ofChar? opener with
  | none => .error (.atPosition (.unexpected opener) text start)
  | some kind =>
    match kind, bodyLength? kind.toChar rest with
    | _, none => .error (.atEnd (.unterminated kind.toChar) text)
    | quote, some n => .ok (n + 1)
    | slash, some 0 => .error (.atPosition .emptyPattern text (start + 1))
    | slash, some n => .ok (n + 1 + flagsLength (rest.drop (n + 1)))

/-- The number of the last character of the literal that starts at character `start` of a text:
its closing delimiter, or the last of its flags. -/
def scan (text : List Char) (start : Nat) : Except GrammarError Nat :=
  match text.drop start with
  | [] => .error (.atEnd .illegalEnd text)
  | opener :: rest => (span text start opener rest).map (start + ·)

end Delimiter

end DynTypes
