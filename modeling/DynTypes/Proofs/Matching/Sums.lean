import DynTypes.TypeExpr.Accepts
/-!
# Matching sums

A sum asks its alternatives one after the other and stops at the first answer that is not "no". So
alternatives can be grouped in any way, as long as they keep their order.
-/

namespace DynTypes

variable {V : Type}

namespace Test

variable (p q r : Test V)

theorem or_apply (v : V) :
    p.or q v =
      match p v with
      | .ok false => q v
      | answer => answer := by
  rw [Test.or]
  rcases p v with _ | _ | _ <;> rfl

/-- A second test is of no account if it can only say the same again, or no. -/
theorem or_eq_self {p q : Test V} {v : V} (h : q v = p v ∨ q v = .ok false) :
    p.or q v = p v := by
  rw [or_apply]
  rcases hp : p v with _ | _ | _
  · rfl
  · rcases h with h | h
    · exact h.trans hp
    · exact h
  · rfl

theorem or_assoc : (p.or q).or r = p.or (q.or r) := by
  funext v
  simp only [or_apply]
  rcases p v with _ | _ | _ <;> rfl

theorem never_or : Test.or (fun _ => return false) p = p := by
  funext v
  rw [or_apply]
  rfl

end Test

variable [RegexEngine]

section Accepts

variable (registry : Registry V) (view : View V)

theorem Alternative.accepts_mk (name : String) (optional : Bool) (slots : List TypeExpr)
    (constraints : Option Constraints) (v : V) :
    (Alternative.mk name optional slots constraints).accepts registry view v =
      if optional && view.isAbsent v then .ok true
      else do
        if ← Test.ofName registry name v then
          if constraints.all (·.accepts view v) then
            if slots.isEmpty then return true
            else Test.collection view (TypeExpr.acceptsEach registry view slots) v
          else return false
        else return false := by
  rw [Alternative.accepts]
  dsimp only
  cases optional && view.isAbsent v with
  | true => rfl
  | false =>
    rcases Test.ofName registry name v with _ | _ | _
    · rfl
    · rfl
    · cases constraints.all (·.accepts view v) <;> rfl

@[simp] theorem TypeExpr.acceptsEach_eq_map (exprs : List TypeExpr) :
    TypeExpr.acceptsEach registry view exprs = exprs.map (TypeExpr.accepts registry view) := by
  induction exprs with
  | nil => rfl
  | cons expr rest ih => rw [TypeExpr.acceptsEach, ih, List.map_cons]

theorem Alternative.accepts_plain {name : String} {v : V}
    (hname : Test.ofName registry name v = .ok true) (slots : List TypeExpr) :
    (Alternative.mk name false slots none).accepts registry view v =
      if slots.isEmpty then .ok true
      else Test.collection view (slots.map (TypeExpr.accepts registry view)) v := by
  rw [Alternative.accepts_mk, hname, TypeExpr.acceptsEach_eq_map]
  rfl

theorem TypeExpr.accepts_eq_acceptsAny (e : TypeExpr) :
    e.accepts registry view = Alternative.acceptsAny registry view e.alternatives := by
  cases e
  rfl

theorem Alternative.acceptsAny_append (front rest : List Alternative) :
    Alternative.acceptsAny registry view (front ++ rest) =
      (Alternative.acceptsAny registry view front).or
        (Alternative.acceptsAny registry view rest) := by
  induction front with
  | nil => exact (Test.never_or _).symm
  | cons first front ih =>
      rw [List.cons_append, Alternative.acceptsAny, ih, Alternative.acceptsAny, Test.or_assoc]

end Accepts

namespace TypeExpr

/-- The alternatives of one expression and then those of another. -/
def join : TypeExpr → TypeExpr → TypeExpr
  | sum first rest, other => sum first (rest ++ other.alternatives)

@[simp] theorem alternatives_join (e other : TypeExpr) :
    (e.join other).alternatives = e.alternatives ++ other.alternatives := by
  cases e
  rfl

theorem accepts_join (registry : Registry V) (view : View V) (e other : TypeExpr) :
    (e.join other).accepts registry view =
      (e.accepts registry view).or (other.accepts registry view) := by
  rw [accepts_eq_acceptsAny, alternatives_join, Alternative.acceptsAny_append,
    ← accepts_eq_acceptsAny, ← accepts_eq_acceptsAny]

end TypeExpr

end DynTypes
