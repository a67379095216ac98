import DynTypes.Regex.Flags
import DynTypes.Text.Hexadecimal
import DynTypes.Text.Scan
/-!
# Escapes in regular expressions

What a backslash and the characters behind it stand for: a character, a class or a condition on
the place where they stand.
-/

namespace DynTypes.Regex

/-- What a single character or an escape stands for. -/
inductive Primitive where
  /-- A character. It is `narrow` if it is a byte of two digits beyond the first 128. -/
  | char (c : Char) (narrow : Bool)
  /-- A class. -/
  | set (s : CharSet)
  /-- A condition on the neighbours of a place. -/
  | between (test : Option Char → Option Char → Bool)

/-- The character with a number, unless it is none or a surrogate. -/
private def charOfNat? (n : Nat) : Option Char :=
  if n < 0xD800 || (0xDFFF < n && n < 0x110000) then some (Char.ofNat n) else none

/-- Reads characters of a kind up to a closing brace; answers with them and the text behind the
brace. -/
private def readBraced (flags : Flags) (wanted : Char → Bool) :
    (skip : Nat) → List Char → Option (List Char × List Char)
  | _, [] => none
  | skip + 1, _ :: rest => readBraced flags wanted skip rest
  | 0, c :: rest =>
    if c == '\x7d' then some ([], rest)
    else if wanted c then
      (readBraced flags wanted (Text.used rest (flags.skip rest)) rest).map
        fun (taken, rest) => (c :: taken, rest)
    else none

/-- Reads `count` hexadecimal digits. -/
private def readHexDigits (flags : Flags) (value : Nat) :
    (count : Nat) → List Char → Option (Nat × List Char)
  | 0, text => some (value, text)
  | count + 1, text =>
    match flags.skip text with
    | c :: rest => do
      let digit ← Text.hexValue? c
      readHexDigits flags (16 * value + digit) count rest
    | [] => none

/-- Reads the number of a character after `\x`, `\u` or `\U`: as many digits as the letter asks
for, or any number of them in braces. -/
private def readHex (flags : Flags) (letter : Char) (text : List Char) :
    Option (Primitive × List Char) :=
  match flags.skip text with
  | '\x7b' :: rest => do
    let (digits, rest) ← readBraced flags (fun c => (Text.hexValue? c).isSome) 0 (flags.skip rest)
    if digits.isEmpty then none
    else
      let values := digits.filterMap Text.hexValue?
      let c ← charOfNat? (values.foldl (fun n digit => 16 * n + digit) 0)
      return (.char c false, rest)
  | text => do
    let count := match letter with | 'x' => 2 | 'u' => 4 | _ => 8
    let (value, rest) ← readHexDigits flags 0 count text
    let c ← charOfNat? value
    return (.char c (count == 2 && 0x80 ≤ value), rest)

/-- Splits a text at the first place where `mark` stands. -/
private def splitAt? (mark : List Char) : List Char → Option (List Char × List Char)
  | [] => none
  | c :: rest =>
    if mark.isPrefixOf (c :: rest) then some ([], (c :: rest).drop mark.length)
    else (splitAt? mark rest).map fun (before, after) => (c :: before, after)

/-- The set of what stands between the braces of a property, and whether it is negated there. -/
private def propertySet? (name : List Char) : Option (CharSet × Bool) :=
  match splitAt? ['!', '='] name with
  | some (name, value) => (CharSet.ofPropertyValue? name value).map (·, true)
  | none =>
    match splitAt? [':'] name <|> splitAt? ['='] name with
    | some (name, value) => (CharSet.ofPropertyValue? name value).map (·, false)
    | none => (CharSet.ofProperty? name).map (·, false)

/-- Reads a property after `\p` or `\P`. -/
private def readProperty (flags : Flags) (negated : Bool) (text : List Char) :
    Option (Primitive × List Char) :=
  let set (s : CharSet) (negated : Bool) (rest : List Char) : Option (Primitive × List Char) :=
    if flags.unicode then
      (flags.compl? negated (flags.fold s)).map fun s => (.set s, rest)
    else none
  match flags.skip text with
  | [] => none
  | '\x7b' :: rest => do
    let (name, rest) ← readBraced flags (fun _ => true) 0 (flags.skip rest)
    let (s, negatedInside) ← propertySet? name
    set s (negated != negatedInside) rest
  | c :: rest => do
    if c == '\\' then none
    else
      let s ← CharSet.ofProperty? [c]
      set s negated rest

/-- Whether a neighbour exists and is a character of words. -/
private def Flags.wordAt (flags : Flags) (neighbour : Option Char) : Bool :=
  neighbour.any flags.word

/-- Where a word begins or ends. -/
private def Flags.wordBoundary (flags : Flags) : Primitive :=
  .between fun before after => flags.wordAt before != flags.wordAt after

/-- The boundaries that are written with a name in braces. -/
private def Flags.namedBoundary? (flags : Flags) : String → Option Primitive
  | "start" => some (.between fun before after => !flags.wordAt before && flags.wordAt after)
  | "end" => some (.between fun before after => flags.wordAt before && !flags.wordAt after)
  | "start-half" => some (.between fun before _ => !flags.wordAt before)
  | "end-half" => some (.between fun _ after => !flags.wordAt after)
  | _ => none

/-- Reads what follows `\b`: a name in braces names the kind of boundary, other braces belong to a
repetition. -/
private def readBoundary (flags : Flags) (text : List Char) : Option (Primitive × List Char) :=
  let isNameChar (c : Char) : Bool := c.isAlpha || c == '-'
  match text with
  | '\x7b' :: rest =>
    match flags.skip rest with
    | [] => none
    | c :: rest =>
      if isNameChar c then do
        let (name, rest) ← readBraced flags isNameChar 0 (c :: rest)
        let boundary ← flags.namedBoundary? (String.ofList name)
        return (boundary, rest)
      else some (flags.wordBoundary, text)
  | _ => some (flags.wordBoundary, text)

/-- The characters that mean something else without a backslash. -/
private def isMeta (c : Char) : Bool :=
  "\\.+*?()|[]\x7b\x7d^$#&-~".toList.contains c

/-- Reads an escape after its backslash. -/
def readEscape (flags : Flags) : List Char → Option (Primitive × List Char)
  | [] => none
  | c :: rest =>
    let char (c : Char) : Option (Primitive × List Char) := some (.char c false, rest)
    let between (test : Option Char → Option Char → Bool) : Option (Primitive × List Char) :=
      some (.between test, rest)
    match c with
    | 'x' | 'u' | 'U' => readHex flags c rest
    | 'p' => readProperty flags false rest
    | 'P' => readProperty flags true rest
    | 'd' | 's' | 'w' => some (.set (flags.shorthandSet c), rest)
    | 'D' | 'S' | 'W' =>
      (flags.compl? true (flags.shorthandSet c.toLower)).map fun s => (.set s, rest)
    | 'a' => char '\x07'
    | 'f' => char '\x0c'
    | 't' => char '\t'
    | 'n' => char '\n'
    | 'r' => char '\r'
    | 'v' => char '\x0b'
    | 'A' => between fun before _ => before.isNone
    | 'z' => between fun _ after => after.isNone
    | 'b' => readBoundary flags rest
    | 'B' => between fun before after => flags.wordAt before == flags.wordAt after
    | '<' => (flags.namedBoundary? "start").map (·, rest)
    | '>' => (flags.namedBoundary? "end").map (·, rest)
    | c =>
      if isMeta c || (c.toNat < 0x80 && !c.isAlphanum) then char c else none

end DynTypes.Regex
