import DynTypes.Regex.Escape
/-!
# Classes in brackets

A class lists characters, ranges and other classes, and may join two such lists by an operation of
sets. Classes lie inside each other, so the ones that are still open form a stack.
-/

namespace DynTypes.Regex

/-- The ways to join two parts of a class. -/
inductive SetOperation where
  | intersection
  | difference
  | symmetricDifference

/-- A class that is still open. -/
structure OpenClass where
  /-- Whether the class is negated. -/
  negated : Bool
  /-- The part on the left of the last operation, and that operation. -/
  left : Option (CharSet × SetOperation)
  /-- The members since then. -/
  members : CharSet

namespace OpenClass

def add (frame : OpenClass) (s : CharSet) : OpenClass :=
  { frame with members := frame.members.union s }

/-- The members so far, with the pending operation done. Its two sides are folded first. -/
def joined (frame : OpenClass) (flags : Flags) : CharSet :=
  match frame.left with
  | none => frame.members
  | some (left, operation) =>
    let left := flags.fold left
    let right := flags.fold frame.members
    match operation with
    | .intersection => left.inter right
    | .difference => left.diff right
    | .symmetricDifference => left.symmDiff right

/-- Makes all members so far the left side of an operation. -/
def operate (frame : OpenClass) (flags : Flags) (operation : SetOperation) : OpenClass :=
  { frame with left := some (frame.joined flags, operation), members := CharSet.empty }

/-- The set of a class at its closing bracket. -/
def close? (frame : OpenClass) (flags : Flags) : Option CharSet :=
  flags.compl? frame.negated (flags.fold (frame.joined flags))

/-- Takes in the hyphens at the start of a class: they stand for themselves. -/
private def leadingHyphens (flags : Flags) :
    (skip : Nat) → (seen : Bool) → List Char → Option (Bool × List Char)
  | _, _, [] => none
  | skip + 1, seen, _ :: rest => leadingHyphens flags skip seen rest
  | 0, seen, c :: rest =>
    if c == '-' then
      leadingHyphens flags (Text.used rest (flags.skip rest)) true rest
    else some (seen, c :: rest)

/-- Opens a class, behind its bracket. A hyphen or closing bracket that comes first stands for
itself. -/
def open? (flags : Flags) (text : List Char) : Option (OpenClass × List Char) := do
  let text := flags.skip text
  let (negated, text) :=
    match text with
    | '^' :: rest => (true, flags.skip rest)
    | text => (false, text)
  let (hyphen, text) ← leadingHyphens flags 0 false text
  let frame : OpenClass :=
    { negated, left := none, members := if hyphen then CharSet.single '-' else CharSet.empty }
  match text with
  | ']' :: rest =>
    if hyphen then return (frame, text)
    else
      match flags.skip rest with
      | [] => none
      | rest => return (frame.add (CharSet.single ']'), rest)
  | _ => return (frame, text)

/-- Reads a named set after `[:`; answers with it and the text behind `:]`. -/
def posixSet? (flags : Flags) (text : List Char) : Option (Option CharSet × List Char) := do
  let (negated, text) :=
    match text with
    | '^' :: rest => (true, rest)
    | text => (false, text)
  let (name, rest) := (text.takeWhile (· != ':'), text.dropWhile (· != ':'))
  match rest with
  | ':' :: ']' :: rest =>
    let s ← CharSet.ofPosixName? (String.ofList name)
    return (flags.compl? negated (flags.fold s), rest)
  | _ => none

/-- Reads one primitive of a class. -/
private def readItem (flags : Flags) : List Char → Option (Primitive × List Char)
  | [] => none
  | '\\' :: rest => readEscape flags rest
  | c :: rest => some (.char c false, rest)

/-- A character as a member of a class. Without full scripts only the first 128 can be one. -/
private def memberChar? (flags : Flags) : Primitive → Option Char
  | .char c _ => if flags.unicode || c.toNat < 0x80 then some c else none
  | _ => none

/-- Reads a character, a range or a class inside a class. -/
def readMembers (flags : Flags) (text : List Char) : Option (CharSet × List Char) := do
  let (first, rest) ← readItem flags text
  let alone : Option CharSet :=
    match first with
    | .set s => some s
    | .between _ => none
    | first => (memberChar? flags first).map CharSet.single
  match flags.skip rest with
  | [] => none
  | '-' :: after =>
    let next := flags.peek after
    if next == some ']' || next == some '-' then return (← alone, '-' :: after)
    else
      let (last, rest) ← readItem flags (flags.skip after)
      let low ← memberChar? flags first
      let high ← memberChar? flags last
      if low ≤ high then return (CharSet.range low high, rest) else none
  | rest => return (← alone, rest)

end OpenClass

end DynTypes.Regex
