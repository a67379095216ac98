import DynTypes.Constraint.Accepts
import DynTypes.TypeExpr.Basic
/-!
# Matching

A type expression is turned into a test on the values of a host. Alternatives are tried in order,
and a test stops as soon as its answer is known; so a name that no type has is an error only where
it is reached.
-/

namespace DynTypes

variable [RegexEngine]

/-- Why a match has no answer. -/
inductive MatchError where
  /-- No type has this name. -/
  | unknownType (name : String)
  /-- The definition gives no type expression. -/
  | definition (error : DefinitionError)
deriving DecidableEq

def MatchError.message : MatchError → String
  | unknownType name => "Unknown type: " ++ name
  | definition error => error.message

/-- A test on values, which may fail to give an answer. -/
abbrev Test (V : Type) := V → Except MatchError Bool

namespace Test

variable {V : Type}

/-- Passes what passes one of two tests; the second is made only if the first is not passed. -/
def or (p q : Test V) : Test V := fun v => do
  if ← p v then return true else q v

/-- Whether each part passes the test at its place. -/
def partsPass : List (Test V) → List V → Except MatchError Bool
  | p :: ps, v :: vs => do
    if ← p v then partsPass ps vs else return false
  | _, _ => return true

/-- Whether an item passes the tests of the slots. An item with parts needs as many as there are
slots. -/
def itemPasses (slots : List (Test V)) : Item V → Except MatchError Bool
  | .single v =>
    match slots with
    | [] => return true
    | p :: _ => p v
  | .parts vs => if vs.length = slots.length then partsPass slots vs else return false

/-- Whether every item passes the tests of the slots. -/
def itemsPass (slots : List (Test V)) : List (Item V) → Except MatchError Bool
  | [] => return true
  | item :: rest => do
    if ← itemPasses slots item then itemsPass slots rest else return false

/-- Passes collections that have items, all of which pass the tests of the slots. -/
def collection (view : View V) (slots : List (Test V)) : Test V := fun v =>
  match view.items v with
  | none | some [] => return false
  | some items => itemsPass slots items

/-- Passes the members of a named type. -/
def ofName (registry : Registry V) (name : String) : Test V := fun v =>
  if name = Alternative.booleanName then return registry.isBoolean v
  else
    match registry.resolve name with
    | some isMember => return isMember v
    | none => .error (.unknownType name)

end Test

section Accepts

variable {V : Type} (registry : Registry V) (view : View V)

mutual

def TypeExpr.accepts : TypeExpr → Test V
  | .sum first rest => first.accepts.or (Alternative.acceptsAny rest)

def Alternative.accepts : Alternative → Test V
  | .mk name optional slots constraints => fun v => do
    if optional && view.isAbsent v then return true
    else if !(← Test.ofName registry name v) then return false
    else if !constraints.all (·.accepts view v) then return false
    else if slots.isEmpty then return true
    else Test.collection view (TypeExpr.acceptsEach slots) v

def Alternative.acceptsAny : List Alternative → Test V
  | [] => fun _ => return false
  | alternative :: rest => alternative.accepts.or (Alternative.acceptsAny rest)

/-- The tests of some expressions. -/
def TypeExpr.acceptsEach : List TypeExpr → List (Test V)
  | [] => []
  | expr :: rest => expr.accepts :: TypeExpr.acceptsEach rest

end

end Accepts

end DynTypes
