import DynTypes.Proofs.Matching.Names
import DynTypes.Regex.Builtin
import Mathlib.Data.List.Forall2
/-!
# What expressions admit

The meaning of a type expression as a set of values, said without an order of evaluation. Matching
may fail to give an answer, but every answer that it gives is right.
-/

namespace DynTypes

variable {V : Type}

/-- Whether a value is a member of the type with a name. -/
def Registry.HasMember (registry : Registry V) (name : String) (v : V) : Prop :=
  if name = Alternative.booleanName then registry.isBoolean v = true
  else ∃ isMember, registry.resolve name = some isMember ∧ isMember v = true

/-! ## Outcomes that are right -/

/-- Whether an item has what the slots ask for. -/
def Item.Fits (facts : List (V → Prop)) : Item V → Prop
  | .single v => ∀ fact ∈ facts.head?, fact v
  | .parts vs => vs.length = facts.length ∧ ∀ p ∈ facts.zip vs, p.1 p.2

/-- Whether a value has items, all of which fit. -/
def View.ItemsFit (view : View V) (facts : List (V → Prop)) (v : V) : Prop :=
  ∃ items, view.items v = some items ∧ items ≠ [] ∧ ∀ item ∈ items, item.Fits facts

theorem Item.fits_parts {α : Type} {slots : List α} {f : α → V → Prop} {vs : List V} :
    (Item.parts vs).Fits (slots.map f) ↔
      vs.length = slots.length ∧ ∀ p ∈ slots.zip vs, f p.1 p.2 := by
  rw [Fits, List.length_map, List.zip_map_left, List.forall_mem_map]
  rfl

/-- If the outcome is an answer, then the right one. -/
def Tells (fact : Prop) (outcome : Except MatchError Bool) : Prop :=
  ∀ answer, outcome = .ok answer → (answer = true ↔ fact)

namespace Tells

variable {fact other : Prop} {first second : Except MatchError Bool}

theorem ok {answer : Bool} (h : answer = true ↔ fact) : Tells fact (.ok answer) := by
  rintro _ ⟨⟩
  exact h

theorem congr (h : Tells fact first) (hiff : fact ↔ other) : Tells other first :=
  fun answer hanswer => (h answer hanswer).trans hiff

theorem both (h : Tells fact first) (hsecond : Tells other second) :
    Tells (fact ∧ other) (do if ← first then second else return false) := by
  intro answer hanswer
  rcases first with error | _ | _
  · contradiction
  · cases hanswer
    simp [← h false rfl]
  · rw [hsecond answer hanswer, and_iff_right ((h true rfl).1 rfl)]

theorem ite {condition : Bool} (h : Tells fact first) :
    Tells (condition = true ∧ fact) (if condition then first else return false) := by
  cases condition with
  | true => exact h.congr (by simp)
  | false => exact .ok (by simp)

end Tells

namespace Test

/-- Every answer of the test is right. -/
def Decides (t : Test V) (fact : V → Prop) : Prop :=
  ∀ v, Tells (fact v) (t v)

theorem Decides.or {t u : Test V} {fact other : V → Prop} (ht : t.Decides fact)
    (hu : u.Decides other) : (t.or u).Decides fun v => fact v ∨ other v := by
  intro v answer hanswer
  rw [or_apply] at hanswer
  split at hanswer
  · next hno =>
    have hfact : ¬ fact v := fun h => nomatch (ht v false hno).2 h
    exact (hu v answer hanswer).trans (or_iff_right hfact).symm
  · next hno =>
    cases answer with
    | true => simp [(ht v true hanswer).1 rfl]
    | false => exact absurd hanswer hno

theorem decides_ofName (registry : Registry V) (name : String) :
    (ofName registry name).Decides (registry.HasMember name) := by
  intro v answer hanswer
  rw [ofName] at hanswer
  rw [Registry.HasMember]
  split at hanswer
  · next hname =>
    cases hanswer
    rw [if_pos hname]
  · next hname =>
    rw [if_neg hname]
    split at hanswer
    · next isMember hsome =>
      cases hanswer
      simp [hsome]
    · contradiction

section Slots

variable {slots : List (Test V)} {facts : List (V → Prop)}

theorem tells_partsPass (hslots : List.Forall₂ Decides slots facts) (vs : List V) :
    Tells (∀ p ∈ facts.zip vs, p.1 p.2) (partsPass slots vs) := by
  induction hslots generalizing vs with
  | nil => exact .ok (by simp)
  | cons ht _ ih =>
      cases vs with
      | nil => exact .ok (by simp)
      | cons v vs =>
          rw [List.zip_cons_cons, List.forall_mem_cons]
          exact (ht v).both (ih vs)

theorem tells_itemPasses (hslots : List.Forall₂ Decides slots facts) (item : Item V) :
    Tells (item.Fits facts) (itemPasses slots item) := by
  cases item with
  | single v =>
      cases hslots with
      | nil => exact .ok (by simp [Item.Fits])
      | cons ht _ => exact (ht v).congr (by simp [Item.Fits])
  | parts vs =>
      rw [itemPasses, hslots.length_eq]
      split
      · next hlength => exact (tells_partsPass hslots vs).congr (and_iff_right hlength).symm
      · next hlength => exact .ok (by simp [Item.Fits, hlength])

theorem tells_itemsPass (hslots : List.Forall₂ Decides slots facts) (items : List (Item V)) :
    Tells (∀ item ∈ items, item.Fits facts) (itemsPass slots items) := by
  induction items with
  | nil => exact .ok (by simp)
  | cons item items ih =>
      rw [List.forall_mem_cons]
      exact (tells_itemPasses hslots item).both ih

theorem decides_collection (view : View V) (hslots : List.Forall₂ Decides slots facts) :
    (collection view slots).Decides (view.ItemsFit facts) := by
  intro v
  rw [collection, View.ItemsFit]
  split
  · next h => exact .ok (by simp [h])
  · next h => exact .ok (by simp [h])
  · next items hne h => exact (tells_itemsPass hslots items).congr (by simpa [h] using fun _ => hne)

end Slots

end Test

section

variable [RegexEngine]

section Admits

variable (registry : Registry V) (view : View V)

mutual

/-- The values that an expression admits: those that one of its alternatives admits. -/
inductive TypeExpr.Admits : TypeExpr → V → Prop
  | of_mem {e : TypeExpr} {a : Alternative} {v : V} (ha : a ∈ e.alternatives)
      (h : Alternative.Admits a v) : TypeExpr.Admits e v

/-- The values that an alternative admits: no value if that is optional, and the members of the type
that satisfy the constraints. If there are slots, a member must have items, each of them a value
for the first slot or a part for every slot. -/
inductive Alternative.Admits : Alternative → V → Prop
  | absent {name : String} {slots : List TypeExpr} {constraints : Option Constraints} {v : V}
      (habsent : view.isAbsent v = true) :
      Alternative.Admits (.mk name true slots constraints) v
  | member {name : String} {optional : Bool} {constraints : Option Constraints} {v : V}
      (hmember : registry.HasMember name v)
      (hconstraints : ∀ list ∈ constraints, ∀ c ∈ list.toList, c.accepts view v = true) :
      Alternative.Admits (.mk name optional [] constraints) v
  | collection {name : String} {optional : Bool} {slot : TypeExpr} {slots : List TypeExpr}
      {constraints : Option Constraints} {v : V} {items : List (Item V)}
      (hmember : registry.HasMember name v)
      (hconstraints : ∀ list ∈ constraints, ∀ c ∈ list.toList, c.accepts view v = true)
      (hitems : view.items v = some items) (hne : items ≠ [])
      (hsingle : ∀ u, .single u ∈ items → TypeExpr.Admits slot u)
      (hlength : ∀ parts, .parts parts ∈ items → parts.length = (slot :: slots).length)
      (hparts : ∀ parts, .parts parts ∈ items →
        ∀ p ∈ (slot :: slots).zip parts, TypeExpr.Admits p.1 p.2) :
      Alternative.Admits (.mk name optional (slot :: slots) constraints) v

end

end Admits

/-! ## Answers are right -/

section Admits

variable {registry : Registry V} {view : View V}

theorem TypeExpr.admits_iff {e : TypeExpr} {v : V} :
    e.Admits registry view v ↔ ∃ a ∈ e.alternatives, a.Admits registry view v := by
  constructor
  · rintro ⟨ha, h⟩
    exact ⟨_, ha, h⟩
  · rintro ⟨a, ha, h⟩
    exact .of_mem ha h

theorem Alternative.admits_iff {name : String} {optional : Bool} {slots : List TypeExpr}
    {constraints : Option Constraints} {v : V} :
    (Alternative.mk name optional slots constraints).Admits registry view v ↔
      (optional && view.isAbsent v) = true ∨
        registry.HasMember name v ∧ constraints.all (·.accepts view v) = true ∧
          (slots = [] ∨ view.ItemsFit (slots.map (TypeExpr.Admits registry view)) v) := by
  have hall : constraints.all (·.accepts view v) = true ↔
      ∀ list ∈ constraints, ∀ c ∈ list.toList, c.accepts view v = true := by
    simp [Option.all_eq_true, Constraints.accepts]
  rw [hall]
  constructor
  · rintro (habsent | ⟨hmember, hconstraints⟩ |
      ⟨hmember, hconstraints, hitems, hne, hsingle, hlength, hparts⟩)
    · exact .inl (by simpa using habsent)
    · exact .inr ⟨hmember, hconstraints, .inl rfl⟩
    · refine .inr ⟨hmember, hconstraints, .inr ⟨_, hitems, hne, fun item hitem => ?_⟩⟩
      cases item with
      | single u => simpa [Item.Fits] using hsingle u hitem
      | parts vs => exact Item.fits_parts.2 ⟨hlength vs hitem, hparts vs hitem⟩
  · rintro (habsent | ⟨hmember, hconstraints, hslots⟩)
    · obtain ⟨rfl, habsent⟩ := Bool.and_eq_true_iff.1 habsent
      exact .absent habsent
    · cases slots with
      | nil => exact .member hmember hconstraints
      | cons slot slots =>
          obtain ⟨items, hitems, hne, hfits⟩ := hslots.resolve_left (List.cons_ne_nil _ _)
          refine .collection hmember hconstraints hitems hne (fun u hu => ?_)
            (fun vs hvs => (Item.fits_parts.1 (hfits _ hvs)).1)
            (fun vs hvs => (Item.fits_parts.1 (hfits _ hvs)).2)
          simpa [Item.Fits] using hfits _ hu

mutual

theorem TypeExpr.decides : (e : TypeExpr) →
    (e.accepts registry view).Decides (e.Admits registry view)
  | .sum first rest => fun v =>
      (first.decides.or (Alternative.decides_any rest) v).congr
        (by simp [TypeExpr.admits_iff, TypeExpr.alternatives])

theorem Alternative.decides : (alternative : Alternative) →
    (alternative.accepts registry view).Decides (alternative.Admits registry view)
  | .mk name optional slots constraints => by
      have hcollection := Test.decides_collection view (TypeExpr.decides_each slots)
      intro v
      have hslots : Tells
          (slots = [] ∨ view.ItemsFit (slots.map (TypeExpr.Admits registry view)) v)
          (if slots.isEmpty then return true
            else Test.collection view (TypeExpr.acceptsEach registry view slots) v) := by
        split
        · next hnil => exact .ok (by simp [List.isEmpty_iff.1 hnil])
        · next hne => exact (hcollection v).congr (or_iff_right (by simpa using hne)).symm
      rw [Alternative.accepts_mk]
      refine Tells.congr ?_ Alternative.admits_iff.symm
      split
      · next habsent => exact .ok (by simp [habsent])
      · next hpresent =>
        exact ((Test.decides_ofName registry name v).both hslots.ite).congr
          (or_iff_right hpresent).symm

theorem Alternative.decides_any : (alternatives : List Alternative) →
    (Alternative.acceptsAny registry view alternatives).Decides fun v =>
      ∃ a ∈ alternatives, a.Admits registry view v
  | [] => fun _ => .ok (by simp)
  | alternative :: rest => fun v =>
      (alternative.decides.or (Alternative.decides_any rest) v).congr (by simp)

theorem TypeExpr.decides_each : (exprs : List TypeExpr) →
    List.Forall₂ Test.Decides (TypeExpr.acceptsEach registry view exprs)
      (exprs.map (TypeExpr.Admits registry view))
  | [] => .nil
  | expr :: rest => .cons expr.decides (TypeExpr.decides_each rest)

end

theorem TypeExpr.exists_right_answer {e : TypeExpr} (h : ∀ name ∈ e.names, ¬ registry.Lacks name)
    (v : V) :
    ∃ answer, e.accepts registry view v = .ok answer ∧
      (answer = true ↔ e.Admits registry view v) := by
  obtain ⟨answer, hanswer⟩ := TypeExpr.exists_answer h v
  exact ⟨answer, hanswer, e.decides v answer hanswer⟩

end Admits

/-- Where every name is known, matching always has an answer: yes to the values that the expression
admits, and no to all others. Nothing is asked of the host; a value may well lie inside itself. -/
theorem accepts_iff_admits (registry : Registry V) (view : View V) {e : TypeExpr}
    (hresolve : ∀ name ∈ e.names, name ≠ Alternative.booleanName → (registry.resolve name).isSome)
    (v : V) :
    (e.accepts registry view v = .ok true ↔ e.Admits registry view v) ∧
      (e.accepts registry view v = .ok false ↔ ¬ e.Admits registry view v) := by
  have hnames (name : String) (hname : name ∈ e.names) : ¬ registry.Lacks name :=
    Registry.not_lacks_iff.2 (hresolve name hname)
  obtain ⟨answer, hanswer, hadmits⟩ := TypeExpr.exists_right_answer hnames v
  rw [hanswer, ← hadmits]
  cases answer <;> simp

end

/-- The view of a host with two values, each of which is a collection of both. -/
def View.mirrors : View Bool where
  isAbsent _ := false
  items v := some [.single (!v), .parts [v, !v]]
  size _ := none
  number _ := none
  text _ := none
  render _ := ""
  symbolName _ := none
  respondsTo _ _ := false
  typeName _ := "Mirror"

/-- Mirrors of mirrors, two for each item: a mirror shows an item with two parts, so it takes two
slots to admit it. -/
theorem accepts_iff_admits_mirrors :
    let registry : Registry Bool :=
      { resolve := fun name => if name = "Mirror" then some fun _ => true else none
        isBoolean := id }
    let boolean : TypeExpr := .sum (.mk "Boolean" false [] none) []
    let mirror : TypeExpr := .sum (.mk "Mirror" false [] none) []
    let inner : TypeExpr := .sum (.mk "Mirror" false [mirror, mirror] none) []
    let pair : TypeExpr := .sum (.mk "Mirror" false [inner, boolean] none) []
    let single : TypeExpr := .sum (.mk "Mirror" false [mirror] none) []
    (∀ name ∈ pair.names, name ≠ Alternative.booleanName → (registry.resolve name).isSome) ∧
      (∀ name ∈ single.names, name ≠ Alternative.booleanName → (registry.resolve name).isSome) ∧
      pair.Admits registry .mirrors false ∧ ¬ pair.Admits registry .mirrors true ∧
      ¬ single.Admits registry .mirrors false := by
  intro registry boolean mirror inner pair single
  have hpair : ∀ name ∈ pair.names, name ≠ Alternative.booleanName →
      (registry.resolve name).isSome := by
    decide
  have hsingle : ∀ name ∈ single.names, name ≠ Alternative.booleanName →
      (registry.resolve name).isSome := by
    decide
  exact ⟨hpair, hsingle, (accepts_iff_admits registry .mirrors hpair false).1.1 rfl,
    (accepts_iff_admits registry .mirrors hpair true).2.1 rfl,
    (accepts_iff_admits registry .mirrors hsingle false).2.1 rfl⟩

end DynTypes
