import DynTypes.Entries
import DynTypes.TypeExpr.Basic
import DynTypes.Value.View
/-!
# Types of dynamic values

A table of named types. It starts with the built-in ones; more can be registered, and the order of
registration is kept.
-/

namespace DynTypes

/-- Types of dynamic values by name, in the order of registration. -/
structure TypeTable where
  types : Entries (Value → Bool)

namespace TypeTable

/-- Registers a type, in place of an earlier one of that name. -/
def register (r : TypeTable) (name : String) (isMember : Value → Bool) :
    TypeTable :=
  ⟨r.types.insert name isMember⟩

/-- Registers a class; its members are the objects that name it. -/
def registerClass (r : TypeTable) (name : String) : TypeTable :=
  r.register name fun v =>
    match v with
    | .object className _ => className == name
    | _ => false

def builtin : TypeTable where
  types :=
    [ (Alternative.anyName, fun _ => true),
      ("NilClass", Value.isNil),
      ("TrueClass", fun v => match v with | .bool true => true | _ => false),
      ("FalseClass", fun v => match v with | .bool false => true | _ => false),
      ("Integer", fun v => match v with | .int _ => true | _ => false),
      ("Float", fun v => match v with | .float _ => true | _ => false),
      ("Numeric", fun v => match v with | .int _ | .float _ => true | _ => false),
      ("String", fun v => match v with | .str _ => true | _ => false),
      ("Symbol", fun v => match v with | .symbol _ => true | _ => false),
      ("Array", fun v => match v with | .array _ => true | _ => false),
      ("Hash", fun v => match v with | .hash _ => true | _ => false),
      ("Enumerable", fun v => match v with | .array _ | .hash _ => true | _ => false) ]

def resolve (r : TypeTable) (name : String) : Option (Value → Bool) :=
  r.types.find? name

def contains (r : TypeTable) (name : String) : Bool :=
  (r.resolve name).isSome

/-- The registered names, in the order of registration. -/
def names (r : TypeTable) : List String :=
  r.types.map (·.1)

/-- The registry as matching sees it. -/
def toRegistry (r : TypeTable) : Registry Value where
  resolve := r.resolve
  isBoolean := Value.isBool

end TypeTable

end DynTypes
