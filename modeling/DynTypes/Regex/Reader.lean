import DynTypes.Number.Numeral
import DynTypes.Regex.Basic
import DynTypes.Regex.Class
import DynTypes.Text.Alphabetic
/-!
# Reading regular expressions

One pass over the text of an expression. The groups that are still open and the brackets of
classes that are still open lie on two stacks; everything else is decided with a look at the
characters that follow. Text that is no regular expression has no reading.
-/

namespace DynTypes.Regex

/-- The leaf of a single character. -/
private def charLeaf? (flags : Flags) (c : Char) (narrow : Bool) : Option (Regex Atom) :=
  if !flags.unicode && narrow then none
  else some (.leaf (.one (flags.fold (CharSet.single c))))

/-- The leaf of a primitive. -/
private def Primitive.toRegex? (flags : Flags) : Primitive → Option (Regex Atom)
  | char c narrow => charLeaf? flags c narrow
  | set s => some (.leaf (.one s))
  | between test => some (.leaf (.between test))

private def dot? (flags : Flags) : Option (Regex Atom) :=
  if !flags.unicode then none
  else if flags.dotAll then some (.leaf (.one fun _ => true))
  else if flags.crlf then some (.leaf (.one fun c => c != '\n' && c != '\r'))
  else some (.leaf (.one fun c => c != '\n'))

/-- The anchor at the start of a text or line. -/
private def startAnchor (flags : Flags) : Regex Atom :=
  .leaf <| .between fun before after =>
    before.isNone || (flags.multiLine &&
      (before == some '\n' || (flags.crlf && before == some '\r' && after != some '\n')))

/-- The anchor at the end of a text or line. -/
private def endAnchor (flags : Flags) : Regex Atom :=
  .leaf <| .between fun before after =>
    after.isNone || (flags.multiLine &&
      (if flags.crlf then after == some '\r' || (after == some '\n' && before != some '\r')
       else after == some '\n'))

/-- One item of a sequence. -/
inductive Item where
  /-- A change of switches, which cannot be repeated. -/
  | directive
  | expr (r : Regex Atom)

/-- The alternatives of one group: those that are complete, and the items of the one at hand,
both last first. -/
structure Branches where
  done : List (Regex Atom) := []
  items : List Item := []

namespace Branches

def current (b : Branches) : Regex Atom :=
  b.items.foldl
    (fun after item =>
      match item with
      | .directive => after
      | .expr r => .seq r after)
    .empty

/-- Ends the alternative at hand. -/
def next (b : Branches) : Branches :=
  { done := b.current :: b.done, items := [] }

def toRegex (b : Branches) : Regex Atom :=
  b.done.foldl (fun right left => .alt left right) b.current

def add (b : Branches) (r : Regex Atom) : Branches :=
  { b with items := .expr r :: b.items }

/-- Repeats the last item, if it can be repeated. -/
def repeatLast? (b : Branches) (least : Nat) (most : Option Nat) : Option Branches :=
  match b.items with
  | .expr r :: items => some { b with items := .expr (.repeated r least most) :: items }
  | _ => none

end Branches

/-- What has been read of an expression. -/
structure Reading where
  flags : Flags
  /-- The names of groups so far. -/
  names : List (List Char) := []
  /-- The innermost group that is open. -/
  branches : Branches := {}
  /-- The groups around it, each with the switches to return to. -/
  groups : List (Branches × Flags) := []
  /-- The classes that are open, innermost first. -/
  classes : List OpenClass := []

namespace Reading

def add (reading : Reading) (r : Regex Atom) : Reading :=
  { reading with branches := reading.branches.add r }

/-- Opens a group that is read under some switches. -/
def openGroup (reading : Reading) (flags : Flags) : Reading :=
  { reading with
    flags
    branches := {}
    groups := (reading.branches, reading.flags) :: reading.groups }

/-- Whether a character may stand in the name of a group. -/
private def isNameChar (first : Bool) (c : Char) : Bool :=
  if first then c == '_' || Text.isAlphabetic c
  else c == '_' || c == '.' || c == '[' || c == ']' || Text.isAlphanumeric c

/-- Opens a group with a name, which ends at `>`. -/
private def openNamed (reading : Reading) (text : List Char) : Option (Reading × List Char) :=
  let (name, rest) := (text.takeWhile (· != '>'), text.dropWhile (· != '>'))
  match name, rest with
  | c :: more, _ :: rest =>
    if isNameChar true c && more.all (isNameChar false) && !reading.names.contains name then
      some ({ reading with names := name :: reading.names }.openGroup reading.flags, rest)
    else none
  | _, _ => none

/-- Reads the letters of switches up to `:` or `)`. No letter may come twice and a minus sign must
be followed by one. Answers with the new switches, whether any letter was read, the character that
ends them and the text behind it. -/
private def readFlags (flags : Flags) (seen : List Char) :
    List Char → Option (Flags × Bool × Char × List Char)
  | [] => none
  | c :: rest =>
    if c == ':' || c == ')' then
      if seen.head? == some '-' then none else some (flags, !seen.isEmpty, c, rest)
    else if seen.contains c then none
    else if c == '-' then readFlags flags (c :: seen) rest
    else do
      let flags ← flags.set? c (!seen.contains '-')
      readFlags flags (c :: seen) rest

/-- Opens a group, or changes the switches, behind an opening parenthesis. -/
def readGroup (reading : Reading) (text : List Char) : Option (Reading × List Char) :=
  match reading.flags.skip text with
  | '?' :: '=' :: _ | '?' :: '!' :: _ => none
  | '?' :: '<' :: '=' :: _ | '?' :: '<' :: '!' :: _ => none
  | '?' :: 'P' :: '<' :: rest | '?' :: '<' :: rest => openNamed reading rest
  | '?' :: rest => do
    let (flags, any, closing, rest) ← readFlags reading.flags [] rest
    if closing == ':' then return (reading.openGroup flags, rest)
    else if any then
      let branches := { reading.branches with items := .directive :: reading.branches.items }
      return ({ reading with flags, branches }, rest)
    else none
  | rest => some (reading.openGroup reading.flags, rest)

def closeGroup (reading : Reading) : Option Reading :=
  match reading.groups with
  | [] => none
  | (outer, flags) :: groups =>
    some { reading with flags, branches := outer.add reading.branches.toRegex, groups }

/-- Takes in the characters of a kind at the start of a text, with what does not count between
them; answers with them and the text behind. -/
private def takeKind (flags : Flags) (kind : Char → Bool) :
    (skip : Nat) → List Char → List Char × List Char
  | _, [] => ([], [])
  | skip + 1, _ :: rest => takeKind flags kind skip rest
  | 0, c :: rest =>
    if kind c then
      let (taken, rest) := takeKind flags kind (Text.used rest (flags.skip rest)) rest
      (c :: taken, rest)
    else ([], c :: rest)

/-- Reads a decimal number of at most 32 bits, with white space around it. -/
private def readCount (flags : Flags) (text : List Char) : Option (Nat × List Char) :=
  let (digits, rest) := takeKind flags Char.isDigit 0 (text.dropWhile Text.isWhiteSpace)
  let (_, rest) := takeKind flags Text.isWhiteSpace 0 rest
  let count := Numeral.digitsValue digits
  if digits.isEmpty || Nat.pow 2 32 ≤ count then none else some (count, rest)

/-- Reads a repetition with counts, behind its opening brace. -/
def readCounts (reading : Reading) (text : List Char) : Option (Reading × List Char) := do
  let flags := reading.flags
  let (least, rest) ← readCount flags (flags.skip text)
  let (most, rest) ← (match rest with
    | ',' :: rest =>
      match flags.skip rest with
      | '\x7d' :: rest => some (none, '\x7d' :: rest)
      | rest => (readCount flags rest).map fun (most, rest) => (some most, rest)
    | rest => some (some least, rest) : Option (Option Nat × List Char))
  match rest with
  | '\x7d' :: rest =>
    if most.any (· < least) then none
    else
      let branches ← reading.branches.repeatLast? least most
      let reading := { reading with branches }
      match flags.skip rest with
      | '?' :: rest => return (reading, rest)
      | rest => return (reading, rest)
  | _ => none

/-- Reads a repetition without counts, behind its sign; another question mark makes it lazy. -/
private def readRepetition (reading : Reading) (least : Nat) (most : Option Nat)
    (text : List Char) : Option (Reading × List Char) := do
  let branches ← reading.branches.repeatLast? least most
  let reading := { reading with branches }
  match text with
  | '?' :: rest => return (reading, rest)
  | rest => return (reading, rest)

/-- Takes the next part of a class. -/
private def stepClass (reading : Reading) (frame : OpenClass) (outer : List OpenClass) (c : Char)
    (rest : List Char) : Option (Reading × List Char) :=
  let flags := reading.flags
  let nest (_ : Unit) : Option (Reading × List Char) := do
    let (inner, rest) ← OpenClass.open? flags rest
    return ({ reading with classes := inner :: frame :: outer }, rest)
  let operate (operation : SetOperation) (rest : List Char) : Option (Reading × List Char) :=
    some ({ reading with classes := frame.operate flags operation :: outer }, rest)
  match c, rest with
  | ']', rest => do
    let s ← frame.close? flags
    match outer with
    | [] => return ({ reading with classes := [] }.add (.leaf (.one s)), rest)
    | parent :: outer => return ({ reading with classes := parent.add s :: outer }, rest)
  | '[', ':' :: name =>
    match OpenClass.posixSet? flags name with
    | some (s, rest) => do
      let s ← s
      return ({ reading with classes := frame.add s :: outer }, rest)
    | none => nest ()
  | '[', _ => nest ()
  | '&', '&' :: rest => operate .intersection rest
  | '-', '-' :: rest => operate .difference rest
  | '~', '~' :: rest => operate .symmetricDifference rest
  | c, rest => do
    let (s, rest) ← OpenClass.readMembers flags (c :: rest)
    return ({ reading with classes := frame.add s :: outer }, rest)

/-- Takes the next part of an expression outside of classes. -/
private def stepOutside (reading : Reading) (c : Char) (rest : List Char) :
    Option (Reading × List Char) :=
  let flags := reading.flags
  match c with
  | '(' => reading.readGroup rest
  | ')' => reading.closeGroup.map (·, rest)
  | '|' => some ({ reading with branches := reading.branches.next }, rest)
  | '[' => do
    let (frame, rest) ← OpenClass.open? flags rest
    return ({ reading with classes := [frame] }, rest)
  | '?' => reading.readRepetition 0 (some 1) rest
  | '*' => reading.readRepetition 0 none rest
  | '+' => reading.readRepetition 1 none rest
  | '\x7b' => reading.readCounts rest
  | '\\' => do
    let (primitive, rest) ← readEscape flags rest
    return (reading.add (← primitive.toRegex? flags), rest)
  | '.' => do return (reading.add (← dot? flags), rest)
  | '^' => some (reading.add (startAnchor flags), rest)
  | '$' => some (reading.add (endAnchor flags), rest)
  | c => do return (reading.add (← charLeaf? flags c false), rest)

/-- Takes the next part of an expression; in an extended one, what does not count is passed
over. -/
def step (_ : Nat) (reading : Reading) (c : Char) (rest : List Char) : Option (Reading × Nat) :=
  let ends (after : Reading × List Char) : Reading × Nat :=
    (after.1, Text.used rest after.2)
  if reading.flags.extended && (Text.isWhiteSpace c || c == '#') then
    some (reading, Text.used rest (Flags.skipBlank (c == '#') rest))
  else
    match reading.classes with
    | frame :: outer => (reading.stepClass frame outer c rest).map ends
    | [] => (reading.stepOutside c rest).map ends

end Reading

/-- Reads a regular expression under some switches. -/
def ofText? (flags : Flags) (text : List Char) : Option (Regex Atom) := do
  let reading ← Text.scan Reading.step 0 0 { flags } text
  if reading.classes.isEmpty && reading.groups.isEmpty then some reading.branches.toRegex
  else none

end DynTypes.Regex
