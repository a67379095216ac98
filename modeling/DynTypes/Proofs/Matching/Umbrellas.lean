import DynTypes.Proofs.Description.Values
import DynTypes.Proofs.Matching.Sums
import DynTypes.Regex.Builtin
/-!
# Umbrella types

Three types have for their members those of two others. An alternative that names such a type can
be written as two, one for each of the types below it, wherever it stands: no match tells the
difference, not even by the name that it fails at.
-/

namespace DynTypes

variable {V : Type}

/-! ## Types that cover two others -/

/-- The members of the first type are those of the two others. All three are told without fail. -/
def Registry.Covers (registry : Registry V) (whole first second : String) : Prop :=
  ∃ inFirst inSecond : V → Bool,
    (∀ v, Test.ofName registry first v = .ok (inFirst v)) ∧
    (∀ v, Test.ofName registry second v = .ok (inSecond v)) ∧
    ∀ v, Test.ofName registry whole v = .ok (inFirst v || inSecond v)

/-- The types that cover two others. -/
inductive Umbrella where
  | numeric
  | enumerable
  | boolean

namespace Umbrella

/-- The name of the type. -/
def name : Umbrella → String
  | numeric => "Numeric"
  | enumerable => "Enumerable"
  | boolean => Alternative.booleanName

/-- The name of the first type below. -/
def first : Umbrella → String
  | numeric => "Integer"
  | enumerable => "Array"
  | boolean => "TrueClass"

/-- The name of the second type below. -/
def second : Umbrella → String
  | numeric => "Float"
  | enumerable => "Hash"
  | boolean => "FalseClass"

end Umbrella

/-- Registered classes with names of their own change nothing about the umbrella types. -/
theorem TypeTable.covers {classes : List String}
    (hclasses : ∀ name ∈ classes, name ∉ builtin.names) (u : Umbrella) :
    (builtin.registerClasses classes).toRegistry.Covers u.name u.first u.second := by
  have htells {name : String} {isMember : Value → Bool} (hname : name ∈ builtin.names)
      (hresolve : builtin.resolve name = some isMember) (v : Value) :
      Test.ofName (builtin.registerClasses classes).toRegistry name v = .ok (isMember v) :=
    Test.ofName_of_resolve (Value.ne_booleanName_of_mem_builtin name hname)
      ((resolve_builtin_registerClasses hclasses hname).trans hresolve) v
  cases u with
  | numeric =>
      refine ⟨_, _, htells (by decide) rfl, htells (by decide) rfl, fun v => ?_⟩
      refine (htells (by decide) rfl v).trans ?_
      cases v <;> rfl
  | enumerable =>
      refine ⟨_, _, htells (by decide) rfl, htells (by decide) rfl, fun v => ?_⟩
      refine (htells (by decide) rfl v).trans ?_
      cases v <;> rfl
  | boolean =>
      refine ⟨_, _, htells (by decide) rfl, htells (by decide) rfl, fun v => ?_⟩
      -- the truth values are told without a look at the table
      rcases v with _ | (_ | _) | _ | _ | _ | _ | _ | _ | _ <;> rfl

section

variable [RegexEngine]

/-! ## Unfolding umbrella types -/

section Accepts

variable {registry : Registry V} {view : View V}

theorem Alternative.accepts_congr {slots slots' : List TypeExpr}
    (h : slots.map (TypeExpr.accepts registry view) = slots'.map (TypeExpr.accepts registry view))
    (name : String) (optional : Bool) (constraints : Option Constraints) :
    (Alternative.mk name optional slots constraints).accepts registry view =
      (Alternative.mk name optional slots' constraints).accepts registry view := by
  have hempty : slots.isEmpty = slots'.isEmpty := by
    rw [← List.isEmpty_map, h, List.isEmpty_map]
  funext v
  rw [accepts_mk, accepts_mk, TypeExpr.acceptsEach_eq_map, TypeExpr.acceptsEach_eq_map, h, hempty]

/-- Past the name, an alternative asks the same whichever of the two types a value belongs to. So
an answer "no" is "no" again if the second type is tried as well. -/
theorem Alternative.accepts_of_covers {whole first second : String}
    (h : registry.Covers whole first second) (optional : Bool) (slots : List TypeExpr)
    (constraints : Option Constraints) :
    (Alternative.mk whole optional slots constraints).accepts registry view =
      ((Alternative.mk first optional slots constraints).accepts registry view).or
        ((Alternative.mk second optional slots constraints).accepts registry view) := by
  obtain ⟨inFirst, inSecond, hfirst, hsecond, hwhole⟩ := h
  funext v
  cases hin : inFirst v with
  | false =>
      rw [Test.or_apply, accepts_mk, accepts_mk, accepts_mk, hfirst, hsecond, hwhole, hin]
      cases optional && view.isAbsent v <;> rfl
  | true =>
      have hsame : (mk whole optional slots constraints).accepts registry view v =
          (mk first optional slots constraints).accepts registry view v := by
        rw [accepts_mk, accepts_mk, hfirst, hwhole, hin]
        rfl
      rw [hsame]
      refine (Test.or_eq_self ?_).symm
      rw [accepts_mk, accepts_mk, hfirst, hsecond, hin]
      cases inSecond v with
      | true => exact .inl rfl
      | false =>
          cases optional && view.isAbsent v with
          | true => exact .inl rfl
          | false => exact .inr rfl

end Accepts

mutual

/-- The second expression is the first one with some umbrella types unfolded, at any depth. -/
inductive TypeExpr.Unfolds : TypeExpr → TypeExpr → Prop
  | intro {e e' : TypeExpr} (h : Alternative.AllUnfold e.alternatives e'.alternatives) :
      TypeExpr.Unfolds e e'

/-- In the place of an umbrella type stand the two types below it, both as optional and constrained
as it was, each with its slots unfolded in turn. -/
inductive Alternative.AllUnfold : List Alternative → List Alternative → Prop
  | nil : Alternative.AllUnfold [] []
  | keep {name : String} {optional : Bool} {slots slots' : List TypeExpr}
      {constraints : Option Constraints} {rest rest' : List Alternative}
      (hslots : TypeExpr.EachUnfolds slots slots') (hrest : Alternative.AllUnfold rest rest') :
      Alternative.AllUnfold (.mk name optional slots constraints :: rest)
        (.mk name optional slots' constraints :: rest')
  | unfold (u : Umbrella) {optional : Bool} {slots slots' slots'' : List TypeExpr}
      {constraints : Option Constraints} {rest rest' : List Alternative}
      (hfirst : TypeExpr.EachUnfolds slots slots') (hsecond : TypeExpr.EachUnfolds slots slots'')
      (hrest : Alternative.AllUnfold rest rest') :
      Alternative.AllUnfold (.mk u.name optional slots constraints :: rest)
        (.mk u.first optional slots' constraints :: .mk u.second optional slots'' constraints ::
          rest')

/-- Each expression is unfolded at its place. -/
inductive TypeExpr.EachUnfolds : List TypeExpr → List TypeExpr → Prop
  | nil : TypeExpr.EachUnfolds [] []
  | cons {e e' : TypeExpr} {rest rest' : List TypeExpr} (h : TypeExpr.Unfolds e e')
      (hrest : TypeExpr.EachUnfolds rest rest') : TypeExpr.EachUnfolds (e :: rest) (e' :: rest')

end

section Unfolding

variable {registry : Registry V} {view : View V}

mutual

theorem TypeExpr.Unfolds.accepts_eq
    (hcovers : ∀ u : Umbrella, registry.Covers u.name u.first u.second) :
    {e e' : TypeExpr} → e.Unfolds e' → e.accepts registry view = e'.accepts registry view
  | e, e', .intro h => by
      rw [TypeExpr.accepts_eq_acceptsAny, TypeExpr.accepts_eq_acceptsAny, h.acceptsAny_eq hcovers]

theorem Alternative.AllUnfold.acceptsAny_eq
    (hcovers : ∀ u : Umbrella, registry.Covers u.name u.first u.second) :
    {alternatives alternatives' : List Alternative} →
      Alternative.AllUnfold alternatives alternatives' →
      Alternative.acceptsAny registry view alternatives =
        Alternative.acceptsAny registry view alternatives'
  | _, _, .nil => rfl
  | _, _, .keep hslots hrest => by
      have hslots := hslots.map_accepts_eq hcovers
      rw [Alternative.acceptsAny, Alternative.acceptsAny, Alternative.accepts_congr hslots,
        hrest.acceptsAny_eq hcovers]
  | _, _, .unfold u hfirst hsecond hrest => by
      have hfirst := hfirst.map_accepts_eq hcovers
      have hsecond := hsecond.map_accepts_eq hcovers
      rw [Alternative.acceptsAny, Alternative.acceptsAny, Alternative.acceptsAny,
        Alternative.accepts_of_covers (hcovers u), Test.or_assoc,
        Alternative.accepts_congr hfirst u.first, Alternative.accepts_congr hsecond u.second,
        hrest.acceptsAny_eq hcovers]

theorem TypeExpr.EachUnfolds.map_accepts_eq
    (hcovers : ∀ u : Umbrella, registry.Covers u.name u.first u.second) :
    {slots slots' : List TypeExpr} → TypeExpr.EachUnfolds slots slots' →
      slots.map (TypeExpr.accepts registry view) = slots'.map (TypeExpr.accepts registry view)
  | _, _, .nil => rfl
  | _, _, .cons h hrest => by
      rw [List.map_cons, List.map_cons, h.accepts_eq hcovers, hrest.map_accepts_eq hcovers]

end

end Unfolding

/-! ## The built-in types -/

/-- Writing an umbrella type as the two types below it changes no match: neither its answer nor the
name that it fails at. -/
theorem accepts_unfolded {classes : List String}
    (hclasses : ∀ name ∈ classes, name ∉ TypeTable.builtin.names) (view : View Value)
    {e e' : TypeExpr} (h : e.Unfolds e') (v : Value) :
    e.accepts (TypeTable.builtin.registerClasses classes).toRegistry view v =
      e'.accepts (TypeTable.builtin.registerClasses classes).toRegistry view v :=
  congrFun (h.accepts_eq (TypeTable.covers hclasses)) v

end

/-- A collection of truth values or gadgets, or a widget, where widgets are known and gadgets are
not. Unfolded, the list of integers still fails at the gadgets, and a widget is still told. -/
theorem accepts_unfolded_gadget :
    let nothing : Option Constraints := none
    let list : Constraints := ⟨[.min 1], by simp, by decide⟩
    let gadget : Alternative := .mk "Gadget" false [] nothing
    let widget : Alternative := .mk "Widget" false [] nothing
    let slot : TypeExpr := .sum (.mk "Boolean" true [] nothing) [gadget]
    let slot' : TypeExpr :=
      .sum (.mk "TrueClass" true [] nothing) [.mk "FalseClass" true [] nothing, gadget]
    let e : TypeExpr := .sum (.mk "Enumerable" false [slot] (some list)) [widget]
    let e' : TypeExpr :=
      .sum (.mk "Array" false [slot'] (some list)) [.mk "Hash" false [slot] (some list), widget]
    let registry := (TypeTable.builtin.registerClasses ["Widget", "Boolean"]).toRegistry
    let integers : Value := .array [.bool false, .nil, .int 1]
    let unknown : MatchError := .unknownType "Gadget"
    (∀ name ∈ ["Widget", "Boolean"], name ∉ TypeTable.builtin.names) ∧ e.Unfolds e' ∧
      e.accepts registry Value.view integers = .error unknown ∧
      e'.accepts registry Value.view integers = .error unknown ∧
      e.accepts registry Value.view (.object "Widget" []) = .ok true ∧
      e'.accepts registry Value.view (.object "Widget" []) = .ok true := by
  intro nothing list gadget widget slot slot' e e' registry integers unknown
  have hclasses : ∀ name ∈ ["Widget", "Boolean"], name ∉ TypeTable.builtin.names := by decide
  have hslot : slot.Unfolds slot' := .intro (.unfold .boolean .nil .nil (.keep .nil .nil))
  have hself : slot.Unfolds slot := .intro (.keep .nil (.keep .nil .nil))
  have h : e.Unfolds e' :=
    .intro (.unfold .enumerable (.cons hslot .nil) (.cons hself .nil) (.keep .nil .nil))
  have hfails : e.accepts registry Value.view integers = .error unknown := rfl
  have hmatches : e.accepts registry Value.view (.object "Widget" []) = .ok true := rfl
  have hsame := accepts_unfolded hclasses Value.view h
  exact ⟨hclasses, h, hfails, hsame integers ▸ hfails, hmatches, hsame _ ▸ hmatches⟩

end DynTypes
