import DynTypes.Constraint.Literal
import DynTypes.Constraint.Pattern
import DynTypes.Json.Tree
import DynTypes.Text.WhiteSpace
/-!
# Constraints

A constraint narrows which values of a type are acceptable. It is written as an identifier with a
value, or as `#` with the name of a method.
-/

namespace DynTypes

/-- The kinds of constraints, in their order. -/
inductive ConstraintKind where
  | format
  | len
  | min
  | max
  | val
  | capability
deriving DecidableEq, Ord, Repr

namespace ConstraintKind

/-- How a kind is written in a definition. -/
def identifier : ConstraintKind → String
  | format => "format"
  | len => "len"
  | min => "min"
  | max => "max"
  | val => "val"
  | capability => "#"

/-- The kind that is written in some way. -/
def ofKeyword? : String → Option ConstraintKind
  | "format" => some format
  | "len" => some len
  | "min" => some min
  | "max" => some max
  | "val" => some val
  | "#" => some capability
  | _ => none

@[simp] theorem ofKeyword?_keyword (kind : ConstraintKind) :
    ofKeyword? kind.identifier = some kind := by
  cases kind <;> rfl

/-- Kinds in their order; equal ones keep theirs. -/
def sort (kinds : List ConstraintKind) : List ConstraintKind :=
  kinds.mergeSort fun a b => (compare a b).isLE

end ConstraintKind

variable [RegexEngine]

/-- A constraint with its value. -/
inductive Constraint where
  /-- The value is a text in which the pattern is found. -/
  | format (pattern : Pattern)
  /-- The size equals the bound. -/
  | len (bound : Int64)
  /-- The number, or else the size, is at least the bound. -/
  | min (bound : Int64)
  /-- The number, or else the size, is at most the bound. -/
  | max (bound : Int64)
  /-- The text of the value equals the literal. -/
  | val (literal : Literal)
  /-- The value responds to the method. -/
  | capability (method : String)
deriving DecidableEq

/-- The JSON form of a literal: how it is written, and its text. -/
def Literal.toJson : Literal → Json String Int
  | .text value => .object [("form", .text "text"), ("text", .text value)]
  | .token value => .object [("form", .text "token"), ("text", .text value)]

namespace Constraint

def kind : Constraint → ConstraintKind
  | format _ => .format
  | len _ => .len
  | min _ => .min
  | max _ => .max
  | val _ => .val
  | capability _ => .capability

/-- What no two constraints of one alternative may share. -/
def key : Constraint → String
  | capability method => "#" ++ method
  | c => c.kind.identifier

/-- Reads a bound: an integer of 64 bits in its shortest decimal form. -/
def readBound? (raw : String) : Option Int64 :=
  match raw.toInt? with
  | some n =>
    if n.repr = raw ∧ Int64.minValue.toInt ≤ n ∧ n ≤ Int64.maxValue.toInt then
      some (Int64.ofInt n)
    else none
  | none => none

/-- Reads the value of a constraint of some kind. -/
def ofKind (kind : ConstraintKind) (raw : String) : Except ConstraintFault Constraint :=
  let bound (make : Int64 → Constraint) : Except ConstraintFault Constraint :=
    match readBound? raw with
    | some n => .ok (make n)
    | none => .error .notInteger
  match kind with
  | .capability => if raw = "" then .error .emptyMethod else .ok (capability raw)
  | .format =>
    match Pattern.cutLiteral? raw.toList with
    | none => .error .notPattern
    | some (body, flags) =>
      match Pattern.ofParts (String.ofList body) (String.ofList flags) with
      | .ok pattern => .ok (format pattern)
      | .error reason => .error (@ConstraintFault.badPattern reason)
  | .len => bound len
  | .min => bound min
  | .max => bound max
  | .val => if raw = "" then .error .emptyLiteral else .ok (val (Literal.parse raw))

/-- Reads a constraint from its identifier and the text of its value, with white space around
it. -/
def parse (identifier raw : String) : Except DefinitionError Constraint :=
  match ConstraintKind.ofKeyword? identifier with
  | none => .error (.unknownConstraint identifier)
  | some kind =>
    let value := String.ofList (Text.trim raw.toList)
    (ofKind kind value).mapError (.invalidConstraint identifier value)

def render : Constraint → List Char
  | format pattern => "format:".toList ++ pattern.render
  | len bound => "len:".toList ++ bound.toInt.repr.toList
  | min bound => "min:".toList ++ bound.toInt.repr.toList
  | max bound => "max:".toList ++ bound.toInt.repr.toList
  | val literal => "val:".toList ++ literal.render
  | capability method => '#' :: method.toList

def kindName : Constraint → String
  | capability _ => "capability"
  | c => c.kind.identifier

def valueJson : Constraint → Json String Int
  | format pattern => .text (String.ofList pattern.render)
  | len bound | min bound | max bound => .number bound.toInt
  | val literal => literal.toJson
  | capability method => .text method

def toJson (c : Constraint) : Json String Int :=
  .object [("kind", .text c.kindName), ("value", c.valueJson)]

end Constraint

end DynTypes
