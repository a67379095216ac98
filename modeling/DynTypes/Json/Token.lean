import DynTypes.Json.Tree
import DynTypes.Text.Hexadecimal
import DynTypes.Text.Scan
/-!
# Tokens of JSON

The words of a JSON document, in the order in which they are written. Whether they form a value
is not decided here.
-/

namespace DynTypes.Json

/-- A word of a JSON document. The text of a token is missing if an escape in it names half of a
surrogate pair without the other half. -/
inductive Token where
  | openArray
  | closeArray
  | openObject
  | closeObject
  | comma
  | colon
  | null
  | bool (value : Bool)
  | number (value : Numeral)
  | text (value : Option String)
deriving DecidableEq

namespace Token

/-- The value of four hexadecimal digits. -/
def hexValue4? (a b c d : Char) : Option Nat := do
  let values ← [a, b, c, d].mapM Text.hexValue?
  return values.foldl (fun n value => 16 * n + value) 0

/-- The character of a one-letter escape. -/
def ofEscape? : Char → Option Char
  | '"' => some '"'
  | '\\' => some '\\'
  | '/' => some '/'
  | 'b' => some '\x08'
  | 'f' => some '\x0c'
  | 'n' => some '\n'
  | 'r' => some '\r'
  | 't' => some '\t'
  | _ => none

/-- Reads the inside of a text up to its closing quote; answers with its code units and what
follows the quote. A character that is not escaped is one unit, whatever its size. -/
def readUnits : List Char → Option (List Nat × List Char)
  | [] => none
  | '"' :: rest => some ([], rest)
  | '\\' :: 'u' :: a :: b :: c :: d :: rest => do
    let unit ← hexValue4? a b c d
    let (units, rest) ← readUnits rest
    return (unit :: units, rest)
  | '\\' :: c :: rest => do
    let c ← ofEscape? c
    let (units, rest) ← readUnits rest
    return (c.toNat :: units, rest)
  | c :: rest => do
    if c.toNat < 0x20 || c == '\\' then none
    else
      let (units, rest) ← readUnits rest
      return (c.toNat :: units, rest)

/-- The characters of code units: a high surrogate and a low one after it are one character, and
no surrogate may stand alone. -/
def joinSurrogates? : List Nat → Option (List Char)
  | [] => some []
  | [unit] => if 0xD800 ≤ unit && unit < 0xE000 then none else some [Char.ofNat unit]
  | high :: low :: rest =>
    if 0xD800 ≤ high && high < 0xE000 then
      if high < 0xDC00 && 0xDC00 ≤ low && low < 0xE000 then
        (joinSurrogates? rest).map
          (Char.ofNat (0x10000 + (high - 0xD800) * 0x400 + (low - 0xDC00)) :: ·)
      else none
    else (joinSurrogates? (low :: rest)).map (Char.ofNat high :: ·)

/-- Whether a numeral is one of JSON: every row of digits holds at least one, and the whole part
has no leading zero. -/
def isNumber (n : Numeral) : Bool :=
  !n.whole.isEmpty && (n.whole.head? != some '0' || n.whole.length == 1) &&
    n.fraction.all (!·.isEmpty) && n.exponent.all (!·.2.isEmpty)

/-- Reads the token that starts with the character `c`, if it is not white space, and adds it to
the tokens before it, last first. -/
def step (_ : Nat) (before : List Token) (c : Char) (rest : List Char) :
    Option (List Token × Nat) :=
  let word (letters : List Char) (token : Token) : Option (List Token × Nat) :=
    if letters.isPrefixOf rest then some (token :: before, letters.length) else none
  match c with
  | ' ' | '\n' | '\t' | '\r' => some (before, 0)
  | '[' => some (openArray :: before, 0)
  | ']' => some (closeArray :: before, 0)
  | '\x7b' => some (openObject :: before, 0)
  | '\x7d' => some (closeObject :: before, 0)
  | ',' => some (comma :: before, 0)
  | ':' => some (colon :: before, 0)
  | 'n' => word ['u', 'l', 'l'] null
  | 't' => word ['r', 'u', 'e'] (bool true)
  | 'f' => word ['a', 'l', 's', 'e'] (bool false)
  | '"' =>
    match readUnits rest with
    | some (units, after) =>
      some (text ((joinSurrogates? units).map String.ofList) :: before, Text.used rest after)
    | none => none
  | c =>
    if c == '-' || c.isDigit then
      let (numeral, after) := Numeral.cut (c :: rest)
      if isNumber numeral then some (number numeral :: before, Text.used rest after)
      else none
    else none

/-- The tokens of a document, unless some part of it is no token. -/
def ofText? (document : List Char) : Option (List Token) :=
  (Text.scan step 0 0 [] document).map List.reverse

end Token

end DynTypes.Json
