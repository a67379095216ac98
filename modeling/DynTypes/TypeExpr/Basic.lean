import DynTypes.Constraint.List
/-!
# Type expressions

A type expression is a sum of alternatives. Each alternative names a type and may accept absence,
describe the items of a collection slot by slot, and carry constraints. A sum always has an
alternative; a list of slots that is given always has a slot.
-/

namespace DynTypes

variable [RegexEngine]

mutual

/-- A sum of alternatives: it accepts what one of them accepts. -/
inductive TypeExpr where
  /-- The first alternative and the others, as they are written. -/
  | sum (first : Alternative) (rest : List Alternative)

/-- One alternative of a sum. -/
inductive Alternative where
  /-- A type name, whether absence is accepted too, what the parts of items are (nothing is said
  of items if there are no slots), and the constraints if there are any. -/
  | mk (name : String) (optional : Bool) (slots : List TypeExpr)
      (constraints : Option Constraints)

end

namespace Alternative

/-- The name of the type of everything. -/
def anyName : String := "Object"

/-- The name of the two truth values, which is not looked up among the registered types. -/
def booleanName : String := "Boolean"

def name : Alternative → String
  | mk name _ _ _ => name

def optional : Alternative → Bool
  | mk _ optional _ _ => optional

/-- The slots, in order; none if nothing is said of items. -/
def slots : Alternative → List TypeExpr
  | mk _ _ slots _ => slots

def constraints : Alternative → Option Constraints
  | mk _ _ _ constraints => constraints

/-- An alternative with a name as it is written: a question mark at the end accepts absence, and a
blank name stands for everything. -/
def ofName (written : String) : Alternative :=
  let written := Text.trim written.toList
  let (name, optional) :=
    if written.getLast? = some '?' then (Text.trimEnd written.dropLast, true)
    else (written, false)
  mk (if name.isEmpty then anyName else String.ofList name) optional [] none

def any : Alternative :=
  ofName anyName

/-- The alternative with other constraints. -/
def constrainedBy (constraints : Constraints) : Alternative → Alternative
  | mk name optional slots _ => mk name optional slots (some constraints)

/-- The alternative with other slots, of which there must be one. -/
def holding (slots : List TypeExpr) (alternative : Alternative) :
    Except DefinitionError Alternative :=
  if slots.isEmpty then .error (.misshapen .noSlots)
  else .ok (mk alternative.name alternative.optional slots alternative.constraints)

end Alternative

namespace TypeExpr

def alternatives : TypeExpr → List Alternative
  | sum first rest => first :: rest

/-- The sum of some alternatives, of which there must be one. -/
def ofAlternatives : List Alternative → Except DefinitionError TypeExpr
  | [] => .error (.misshapen .noAlternatives)
  | first :: rest => .ok (sum first rest)

@[simp] theorem ofAlternatives_alternatives (e : TypeExpr) :
    ofAlternatives e.alternatives = .ok e := by
  cases e
  rfl

end TypeExpr

/-! ### Equality -/

mutual

def TypeExpr.decEq : (a b : TypeExpr) → Decidable (a = b)
  | .sum first rest, .sum first' rest' =>
    match Alternative.decEq first first', Alternative.decEqList rest rest' with
    | isTrue h, isTrue h' => isTrue (by rw [h, h'])
    | isFalse h, _ => isFalse fun heq => h (TypeExpr.sum.inj heq).1
    | _, isFalse h => isFalse fun heq => h (TypeExpr.sum.inj heq).2

def Alternative.decEq : (a b : Alternative) → Decidable (a = b)
  | .mk name optional slots constraints, .mk name' optional' slots' constraints' =>
    match TypeExpr.decEqList slots slots' with
    | isTrue h =>
      if h' : name = name' ∧ optional = optional' ∧ constraints = constraints' then
        isTrue (by rw [h, h'.1, h'.2.1, h'.2.2])
      else
        isFalse fun heq =>
          h' ⟨(Alternative.mk.inj heq).1, (Alternative.mk.inj heq).2.1,
            (Alternative.mk.inj heq).2.2.2⟩
    | isFalse h => isFalse fun heq => h (Alternative.mk.inj heq).2.2.1

def Alternative.decEqList : (a b : List Alternative) → Decidable (a = b)
  | [], [] => isTrue rfl
  | [], _ :: _ => isFalse (by simp)
  | _ :: _, [] => isFalse (by simp)
  | x :: xs, y :: ys =>
    match Alternative.decEq x y, Alternative.decEqList xs ys with
    | isTrue h, isTrue h' => isTrue (by rw [h, h'])
    | isFalse h, _ => isFalse fun heq => h (List.cons.inj heq).1
    | _, isFalse h => isFalse fun heq => h (List.cons.inj heq).2

def TypeExpr.decEqList : (a b : List TypeExpr) → Decidable (a = b)
  | [], [] => isTrue rfl
  | [], _ :: _ => isFalse (by simp)
  | _ :: _, [] => isFalse (by simp)
  | x :: xs, y :: ys =>
    match TypeExpr.decEq x y, TypeExpr.decEqList xs ys with
    | isTrue h, isTrue h' => isTrue (by rw [h, h'])
    | isFalse h, _ => isFalse fun heq => h (List.cons.inj heq).1
    | _, isFalse h => isFalse fun heq => h (List.cons.inj heq).2

end

instance : DecidableEq TypeExpr := TypeExpr.decEq

instance : DecidableEq Alternative := Alternative.decEq

end DynTypes
