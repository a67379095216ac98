import DynTypes.Constraint.List
import DynTypes.View.Basic
/-!
# Constraints on values

What a constraint asks of a value, in terms of what its host shows.
-/

namespace DynTypes

variable [RegexEngine] {V : Type}

def compareSize (size : Nat) (bound : Int64) : Ordering :=
  compare (size : Int) bound.toInt

/-- The order of the magnitude of a value and a bound: of the number that the value is, or else of
its size. -/
def compareMagnitude (view : View V) (v : V) (bound : Int64) : Option Ordering :=
  match view.number v with
  | some number => number.compareBound bound
  | none => (view.size v).map (compareSize · bound)

/-- Whether a value has the text of a literal. A token is compared with the name of a symbol,
behind a colon, and with the plain text of anything else. -/
def Literal.accepts (view : View V) (v : V) : Literal → Bool
  | text value => view.render v == value
  | token value =>
    match view.symbolName v with
    | some name => value.toList == ':' :: name.toList
    | none => view.render v == value

def Constraint.accepts (view : View V) (v : V) : Constraint → Bool
  | format pattern => (view.text v).any pattern.search
  | len bound => (view.size v).any (compareSize · bound == .eq)
  | min bound => (compareMagnitude view v bound).any (· != .lt)
  | max bound => (compareMagnitude view v bound).any (· != .gt)
  | val literal => literal.accepts view v
  | capability method => view.respondsTo v method

def Constraints.accepts (view : View V) (v : V) (s : Constraints) : Bool :=
  s.toList.all (Constraint.accepts view v)

end DynTypes
