import DynTypes.Proofs.Matching.Names
import DynTypes.Regex.Builtin
import DynTypes.Value.TypeTable
import Mathlib.Data.List.Forall2
/-!
# Matching under larger registries

A registry that knows more names answers more questions and no question differently. What a match
gives under the larger registry is what it gives under the smaller one, unless the smaller one has
come to a name that only the larger one knows.
-/

namespace DynTypes

variable {V : Type}

/-- The larger registry knows every name that the other one knows, with the same members, and has
the same truth values. -/
structure Registry.Extends (larger registry : Registry V) : Prop where
  resolve : ∀ name isMember, registry.resolve name = some isMember →
    ∃ isMember', larger.resolve name = some isMember' ∧ ∀ v, isMember' v = isMember v
  isBoolean : ∀ v, larger.isBoolean v = registry.isBoolean v

/-- Whether the error is about a name that the registry does know. -/
def Registry.Knows (registry : Registry V) (error : MatchError) : Prop :=
  ∃ name, error = .unknownType name ∧ ¬ registry.Lacks name

/-! ## Outcomes that are kept -/

/-- The later outcome is the earlier one, unless that is an error with a property. -/
def KeptUnless (p : MatchError → Prop) (earlier later : Except MatchError Bool) : Prop :=
  later = earlier ∨ ∃ error, earlier = .error error ∧ p error

namespace KeptUnless

variable {p : MatchError → Prop} {earlier later : Except MatchError Bool}

theorem refl (outcome : Except MatchError Bool) : KeptUnless p outcome outcome :=
  .inl rfl

theorem bind {next next' : Bool → Except MatchError Bool} (h : KeptUnless p earlier later)
    (hnext : ∀ answer, KeptUnless p (next answer) (next' answer)) :
    KeptUnless p (earlier >>= next) (later >>= next') := by
  rcases h with rfl | ⟨error, rfl, herror⟩
  · cases later with
    | error error => exact .refl _
    | ok answer => exact hnext answer
  · exact .inr ⟨error, rfl, herror⟩

/-- Two tests one after the other, the second only if the first is passed. -/
theorem both {second second' : Except MatchError Bool} (h : KeptUnless p earlier later)
    (hsecond : KeptUnless p second second') :
    KeptUnless p (do if ← earlier then second else return false)
      (do if ← later then second' else return false) := by
  refine h.bind fun answer => ?_
  cases answer with
  | true => exact hsecond
  | false => exact .refl _

end KeptUnless

namespace Test

/-- Every outcome of the one test is kept by the other, unless it is an error with a property. -/
def KeptUnless (p : MatchError → Prop) (t u : Test V) : Prop :=
  ∀ v, DynTypes.KeptUnless p (t v) (u v)

variable {p : MatchError → Prop} {slots slots' : List (Test V)}

theorem KeptUnless.or {t t' u u' : Test V} (ht : t.KeptUnless p t') (hu : u.KeptUnless p u') :
    (t.or u).KeptUnless p (t'.or u') := by
  intro v
  refine (ht v).bind fun answer => ?_
  cases answer with
  | true => exact .refl _
  | false => exact hu v

theorem keptUnless_partsPass (hslots : List.Forall₂ (KeptUnless p) slots slots') (vs : List V) :
    DynTypes.KeptUnless p (partsPass slots vs) (partsPass slots' vs) := by
  induction hslots generalizing vs with
  | nil => exact .refl _
  | cons ht _ ih =>
      cases vs with
      | nil => exact .refl _
      | cons v vs => exact (ht v).both (ih vs)

theorem keptUnless_itemPasses (hslots : List.Forall₂ (KeptUnless p) slots slots')
    (item : Item V) :
    DynTypes.KeptUnless p (itemPasses slots item) (itemPasses slots' item) := by
  cases item with
  | single v =>
      cases hslots with
      | nil => exact .refl _
      | cons ht _ => exact ht v
  | parts vs =>
      rw [itemPasses, itemPasses, hslots.length_eq]
      split
      · exact keptUnless_partsPass hslots vs
      · exact .refl _

theorem keptUnless_itemsPass (hslots : List.Forall₂ (KeptUnless p) slots slots')
    (items : List (Item V)) :
    DynTypes.KeptUnless p (itemsPass slots items) (itemsPass slots' items) := by
  induction items with
  | nil => exact .refl _
  | cons item items ih => exact (keptUnless_itemPasses hslots item).both ih

theorem KeptUnless.collection (view : View V) (hslots : List.Forall₂ (KeptUnless p) slots slots') :
    (Test.collection view slots).KeptUnless p (Test.collection view slots') := by
  intro v
  rw [Test.collection, Test.collection]
  split
  · exact .refl _
  · exact .refl _
  · exact keptUnless_itemsPass hslots _

theorem KeptUnless.ofName {registry larger : Registry V} (h : larger.Extends registry)
    (name : String) :
    (Test.ofName registry name).KeptUnless larger.Knows (Test.ofName larger name) := by
  intro v
  rw [Test.ofName, Test.ofName]
  by_cases hname : name = Alternative.booleanName
  · rw [if_pos hname, if_pos hname, h.isBoolean]
    exact .refl _
  · rw [if_neg hname, if_neg hname]
    cases hresolve : registry.resolve name with
    | some isMember =>
        obtain ⟨isMember', hresolve', heq⟩ := h.resolve name isMember hresolve
        rw [hresolve']
        exact .inl (congrArg Except.ok (heq v))
    | none =>
        by_cases hlacks : larger.Lacks name
        · rw [hlacks.2]
          exact .refl _
        · exact .inr ⟨_, rfl, name, rfl, hlacks⟩

end Test

section

variable [RegexEngine]

/-! ## Matches that are kept -/

section Accepts

variable {registry larger : Registry V} (view : View V) {p : MatchError → Prop}

mutual

theorem TypeExpr.keptUnless
    (hnames : ∀ name, (Test.ofName registry name).KeptUnless p (Test.ofName larger name)) :
    (e : TypeExpr) → Test.KeptUnless p (e.accepts registry view) (e.accepts larger view)
  | .sum first rest => (first.keptUnless hnames).or (Alternative.keptUnless_any hnames rest)

theorem Alternative.keptUnless
    (hnames : ∀ name, (Test.ofName registry name).KeptUnless p (Test.ofName larger name)) :
    (alternative : Alternative) →
      Test.KeptUnless p (alternative.accepts registry view) (alternative.accepts larger view)
  | .mk name optional slots constraints => by
      have hslots := Test.KeptUnless.collection view (TypeExpr.keptUnless_each hnames slots)
      intro v
      rw [Alternative.accepts_mk, Alternative.accepts_mk]
      -- absence and constraints are the same for both registries
      split
      · exact .refl _
      · refine (hnames name v).both ?_
        split
        · split
          · exact .refl _
          · exact hslots v
        · exact .refl _

theorem Alternative.keptUnless_any
    (hnames : ∀ name, (Test.ofName registry name).KeptUnless p (Test.ofName larger name)) :
    (alternatives : List Alternative) →
      Test.KeptUnless p (Alternative.acceptsAny registry view alternatives)
        (Alternative.acceptsAny larger view alternatives)
  | [] => fun _ => .refl _
  | alternative :: rest =>
      (alternative.keptUnless hnames).or (Alternative.keptUnless_any hnames rest)

theorem TypeExpr.keptUnless_each
    (hnames : ∀ name, (Test.ofName registry name).KeptUnless p (Test.ofName larger name)) :
    (exprs : List TypeExpr) →
      List.Forall₂ (Test.KeptUnless p) (TypeExpr.acceptsEach registry view exprs)
        (TypeExpr.acceptsEach larger view exprs)
  | [] => .nil
  | expr :: rest => .cons (expr.keptUnless hnames) (TypeExpr.keptUnless_each hnames rest)

end

end Accepts

theorem TypeExpr.accepts_kept {registry larger : Registry V} (h : larger.Extends registry)
    (view : View V) (e : TypeExpr) (v : V) :
    KeptUnless larger.Knows (e.accepts registry view v) (e.accepts larger view v) :=
  e.keptUnless view (Test.KeptUnless.ofName h) v

/-- Matching fails only at a name of the expression that the registry lacks. A registry that knows
more answers whatever the smaller one answers, and in the same way; and where the smaller one fails
it fails at the same name, unless it knows that name. -/
theorem accepts_stable_under_extension (registry : Registry V) (view : View V) (e : TypeExpr)
    (v : V) :
    (∀ error, e.accepts registry view v = .error error →
      ∃ name ∈ e.names, name ≠ Alternative.booleanName ∧ registry.resolve name = none ∧
        error = .unknownType name) ∧
    ((∀ name ∈ e.names, name ≠ Alternative.booleanName → (registry.resolve name).isSome) →
      ∃ answer, e.accepts registry view v = .ok answer) ∧
    ∀ larger : Registry V, larger.Extends registry →
      (∀ answer, e.accepts registry view v = .ok answer →
        e.accepts larger view v = .ok answer) ∧
      ∀ name, e.accepts registry view v = .error (.unknownType name) →
        larger.resolve name = none → e.accepts larger view v = .error (.unknownType name) := by
  refine ⟨?_, ?_, fun larger hlarger => ⟨?_, ?_⟩⟩
  · intro error herror
    obtain ⟨name, hname, ⟨hboolean, hnone⟩, rfl⟩ := TypeExpr.exists_name_of_error herror
    exact ⟨name, hname, hboolean, hnone, rfl⟩
  · exact fun hresolve =>
      TypeExpr.exists_answer (fun name hname => Registry.not_lacks_iff.2 (hresolve name hname)) v
  · intro answer hanswer
    rcases TypeExpr.accepts_kept hlarger view e v with heq | ⟨error, herror, -⟩
    · exact heq.trans hanswer
    · rw [hanswer] at herror
      contradiction
  · intro name herror hnone
    obtain ⟨_, -, ⟨hboolean, -⟩, hsame⟩ := TypeExpr.exists_name_of_error herror
    cases hsame
    rcases TypeExpr.accepts_kept hlarger view e v with heq | ⟨_, herror', other, rfl, hknown⟩
    · exact heq.trans herror
    · rw [herror] at herror'
      cases herror'
      exact absurd ⟨hboolean, hnone⟩ hknown

end

/-- A table of types in which the name is not taken is extended by registering it. -/
theorem TypeTable.extends_register {table : TypeTable} {name : String}
    (h : table.resolve name = none) (isMember : Value → Bool) :
    (table.register name isMember).toRegistry.Extends table.toRegistry where
  resolve := by
    intro other isMember' hother
    have hne : other ≠ name := by
      rintro rfl
      exact nomatch h.symm.trans hother
    exact ⟨isMember', (Entries.find?_insert_of_ne hne _ _).trans hother, fun _ => rfl⟩
  isBoolean := fun _ => rfl

/-- A text or a widget: a text is told without knowing the widgets, which a registry that knows
gadgets misses all the same, and a registry that knows widgets always answers. -/
theorem accepts_stable_under_extension_widget :
    let registry := TypeTable.builtin.toRegistry
    let larger := (TypeTable.builtin.registerClass "Gadget").toRegistry
    let complete := (TypeTable.builtin.registerClass "Widget").toRegistry
    let e : TypeExpr := .sum (.mk "String" false [] none) [.mk "Widget" false [] none]
    larger.Extends registry ∧ larger.resolve "Widget" = none ∧
      e.accepts registry Value.view (.str "x") = .ok true ∧
      e.accepts larger Value.view (.str "x") = .ok true ∧
      e.accepts registry Value.view .nil = .error (.unknownType "Widget") ∧
      e.accepts larger Value.view .nil = .error (.unknownType "Widget") ∧
      (∀ name ∈ e.names, name ≠ Alternative.booleanName → (complete.resolve name).isSome) ∧
      ∃ answer, e.accepts complete Value.view .nil = .ok answer := by
  intro registry larger complete e
  have hlarger : larger.Extends registry := TypeTable.extends_register rfl _
  have hnone : larger.resolve "Widget" = none := rfl
  have htext : e.accepts registry Value.view (.str "x") = .ok true := rfl
  have hnil : e.accepts registry Value.view .nil = .error (.unknownType "Widget") := rfl
  have hcomplete : ∀ name ∈ e.names, name ≠ Alternative.booleanName →
      (complete.resolve name).isSome := by
    decide
  have hlarge (v : Value) :=
    (accepts_stable_under_extension registry Value.view e v).2.2 larger hlarger
  exact ⟨hlarger, hnone, htext, (hlarge (.str "x")).1 true htext, hnil,
    (hlarge .nil).2 "Widget" hnil hnone, hcomplete,
    (accepts_stable_under_extension complete Value.view e .nil).2.1 hcomplete⟩

end DynTypes
