import DynTypes.Cache
import DynTypes.TypeExpr.Accepts
import DynTypes.View.Describe
/-!
# Checking named values

Values bound to names are checked against definitions. A strict check fails at the first value
that does not match; a review goes on and lists the names of all that do not. Where values are
checked, a fault holds the value that it is about; it is described only when the fault is reported.
-/

namespace DynTypes

/-- Why a check fails. Here `α` tells of a value that does not match. -/
inductive CheckFault (α : Type) where
  | definition (error : DefinitionError)
  | matching (error : MatchError)
  | unknownBinding (name : String)
  /-- The value with this name is `actual` and should be as `expected`. -/
  | mismatch (name : String) (actual : α) (expected : String)
deriving DecidableEq

/-- A fault as it is reported: a value that does not match is described. -/
abbrev CheckError := CheckFault String

/-- The wording of an error. A definition that starts with `#` asks for a method. -/
def CheckError.message : CheckError → String
  | .definition error => error.message
  | .matching error => error.message
  | .unknownBinding name => "Argument '" ++ name ++ "' is not defined."
  | .mismatch name actual expected =>
    if (Text.trimStart expected.toList).head? = some '#' then
      "Object '" ++ name ++ "' does not respond to " ++ expected ++ "."
    else
      "Object '" ++ name ++ "' is " ++ actual ++ " but expected " ++ expected ++ "."

namespace CheckFault

variable {V : Type}

/-- The value that does not match, if the fault is that there is one. -/
def value? : CheckFault V → Option V
  | mismatch _ actual _ => some actual
  | _ => none

/-- Reports a fault. Only a value that does not match is described, so no other has to be finite. -/
def report (view : View V) (fault : CheckFault V)
    (hfinite : ∀ v ∈ fault.value?, Acc view.IsPart v) : CheckError :=
  match fault, hfinite with
  | definition error, _ => .definition error
  | matching error, _ => .matching error
  | unknownBinding name, _ => .unknownBinding name
  | mismatch name actual expected, hfinite =>
    .mismatch name (String.ofList (view.describe ⟨actual, hfinite actual rfl⟩)) expected

end CheckFault

/-- A host: it knows types by name and shows its values. -/
structure Host (V : Type) where
  registry : Registry V
  view : View V

/-- The rules of a checker. -/
structure Checker.Rules where
  /-- Whether mismatches are listed; otherwise the first one is an error. -/
  collectInvalids : Bool := false
deriving DecidableEq, Repr

/-- Checks values of a host against definitions and reports what is at fault. -/
structure Checker (V : Type) extends Host V where
  nesting : Nesting view
  rules : Checker.Rules := {}

section

variable [RegexEngine]

/-- What a check of values gives while definitions go through a cache. -/
abbrev CheckM (V : Type) := ExceptT (CheckFault V) (StateM Cache)

variable {V : Type}

namespace Host

/-- The name that a value without a name is checked under. -/
def returnValue : String := "value"

def isMatch (host : Host V) (definition : String) (v : V) : CheckM V Bool := do
  match ← modifyGet (Cache.fetch definition) with
  | .error error => throw (.definition error)
  | .ok expr =>
    match expr.accepts host.registry host.view v with
    | .error error => throw (.matching error)
    | .ok answer => return answer

/-- Checks named values against definitions, in order; answers with the names of those that do not
match. Unless mismatches are collected, the first is an error. -/
def run (host : Host V) (collect : Bool) (bindings : Entries V) :
    List (String × String) → CheckM V (List String)
  | [] => return []
  | (name, definition) :: rest =>
    match bindings.find? name with
    | none => throw (.unknownBinding name)
    | some v => do
      if ← host.isMatch definition v then
        host.run collect bindings rest
      else if collect then
        return name :: (← host.run collect bindings rest)
      else
        throw (.mismatch name v definition)

/-- Checks named values as the rules say. -/
def check (host : Host V) (rules : Checker.Rules) (bindings : Entries V)
    (checks : List (String × String)) : CheckM V (List String) :=
  host.run rules.collectInvalids bindings checks

/-- Checks named values and lists every mismatch. -/
def review (host : Host V) (bindings : Entries V) (checks : List (String × String)) :
    CheckM V (List String) :=
  host.run true bindings checks

/-- Hands a value through that matches a definition. -/
def ensure (host : Host V) (v : V) (definition : String) : CheckM V V := do
  if ← host.isMatch definition v then return v
  else throw (.mismatch returnValue v definition)

end Host

namespace Checker

/-- Reports a fault. The host has finite values only, so whichever it is about can be described. -/
def report (checker : Checker V) (fault : CheckFault V) : CheckError :=
  fault.report checker.view fun v _ => checker.nesting.wellFounded.apply v

/-- Runs a check and reports its fault, if it has one. -/
def reporting {α : Type} (checker : Checker V) (check : CheckM V α) :
    ExceptT CheckError (StateM Cache) α :=
  check.adapt checker.report

def isMatch (checker : Checker V) (definition : String) (v : V) :
    ExceptT CheckError (StateM Cache) Bool :=
  checker.reporting (checker.toHost.isMatch definition v)

/-- Checks named values as the checker is told to. -/
def check (checker : Checker V) (bindings : Entries V) (checks : List (String × String)) :
    ExceptT CheckError (StateM Cache) (List String) :=
  checker.reporting (checker.toHost.check checker.rules bindings checks)

def review (checker : Checker V) (bindings : Entries V) (checks : List (String × String)) :
    ExceptT CheckError (StateM Cache) (List String) :=
  checker.reporting (checker.toHost.review bindings checks)

def ensure (checker : Checker V) (v : V) (definition : String) :
    ExceptT CheckError (StateM Cache) V :=
  checker.reporting (checker.toHost.ensure v definition)

end Checker

/-- Whether a value matches a definition, which goes through a cache. -/
def acceptsDefinition (registry : Registry V) (view : View V)
    (definition : String) (v : V) : ExceptT MatchError (StateM Cache) Bool := do
  match ← modifyGet (Cache.fetch definition) with
  | .error error => throw (.definition error)
  | .ok expr =>
    match expr.accepts registry view v with
    | .error error => throw error
    | .ok answer => return answer

end

end DynTypes
