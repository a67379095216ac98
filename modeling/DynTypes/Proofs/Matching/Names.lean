import DynTypes.Proofs.Matching.Collections
import DynTypes.Proofs.Matching.Sums
/-!
# Names in type expressions

A test has no answer only where it comes to a name that the registry lacks. So whatever holds of
the error for each such name of an expression holds of every error that matching ends with.
-/

namespace DynTypes

variable {V : Type}

/-- The registry knows no type of this name, and it is not the name of the truth values. -/
def Registry.Lacks (registry : Registry V) (name : String) : Prop :=
  name ≠ Alternative.booleanName ∧ registry.resolve name = none

theorem Test.ofName_of_resolve {registry : Registry V} {name : String} {isMember : V → Bool}
    (hname : name ≠ Alternative.booleanName) (hresolve : registry.resolve name = some isMember)
    (v : V) : Test.ofName registry name v = .ok (isMember v) := by
  rw [Test.ofName, if_neg hname, hresolve]
  rfl

theorem Registry.not_lacks_of_ofName {registry : Registry V} {name : String} {v : V} {answer : Bool}
    (h : Test.ofName registry name v = .ok answer) : ¬ registry.Lacks name := by
  rintro ⟨hname, hnone⟩
  rw [Test.ofName, if_neg hname, hnone] at h
  contradiction

theorem Registry.not_lacks_iff {registry : Registry V} {name : String} :
    ¬ registry.Lacks name ↔
      (name ≠ Alternative.booleanName → (registry.resolve name).isSome) := by
  simp [Registry.Lacks, Option.isSome_iff_ne_none]

/-! ## Errors of tests -/

/-- Whenever the test has no answer, the error has a property. -/
def Test.FailsOnly (p : MatchError → Prop) (t : Test V) : Prop :=
  ∀ v error, t v = .error error → p error

namespace Test

variable {p : MatchError → Prop} {slots : List (Test V)} {error : MatchError}

theorem FailsOnly.or {t u : Test V} (ht : t.FailsOnly p) (hu : u.FailsOnly p) :
    (t.or u).FailsOnly p := by
  intro v error h
  rw [or_apply] at h
  split at h
  · exact hu v error h
  · exact ht v error h

theorem error_of_partsPass (hslots : ∀ t ∈ slots, t.FailsOnly p) {vs : List V}
    (h : partsPass slots vs = .error error) : p error := by
  induction slots generalizing vs with
  | nil => contradiction
  | cons t slots ih =>
      cases vs with
      | nil => contradiction
      | cons v vs =>
          rw [partsPass, both_eq_error_iff] at h
          rcases h with hfirst | ⟨-, hrest⟩
          · exact hslots t List.mem_cons_self v error hfirst
          · exact ih (fun u hu => hslots u (List.mem_cons_of_mem t hu)) hrest

theorem error_of_itemPasses (hslots : ∀ t ∈ slots, t.FailsOnly p) {item : Item V}
    (h : itemPasses slots item = .error error) : p error := by
  cases item with
  | single v =>
      cases slots with
      | nil => contradiction
      | cons t slots => exact hslots t List.mem_cons_self v error h
  | parts vs =>
      rw [itemPasses] at h
      split at h
      · exact error_of_partsPass hslots h
      · contradiction

theorem error_of_itemsPass (hslots : ∀ t ∈ slots, t.FailsOnly p) {items : List (Item V)}
    (h : itemsPass slots items = .error error) : p error := by
  induction items with
  | nil => contradiction
  | cons item items ih =>
      rw [itemsPass, both_eq_error_iff] at h
      rcases h with hfirst | ⟨-, hrest⟩
      · exact error_of_itemPasses hslots hfirst
      · exact ih hrest

theorem FailsOnly.collection (view : View V) (hslots : ∀ t ∈ slots, t.FailsOnly p) :
    (Test.collection view slots).FailsOnly p := by
  intro v error h
  rw [Test.collection] at h
  split at h
  · contradiction
  · contradiction
  · exact error_of_itemsPass hslots h

theorem FailsOnly.ofName {registry : Registry V} {name : String}
    (h : registry.Lacks name → p (.unknownType name)) :
    (Test.ofName registry name).FailsOnly p := by
  intro v error herror
  rw [Test.ofName] at herror
  split at herror
  · contradiction
  · next hname =>
    split at herror
    · contradiction
    · next hnone =>
      cases herror
      exact h ⟨hname, hnone⟩

end Test

variable [RegexEngine]

/-! ## The names in an expression -/

mutual

/-- The names in an expression, at any depth. -/
def TypeExpr.names : TypeExpr → List String
  | .sum first rest => first.names ++ Alternative.allNames rest

/-- The names in an alternative, its own first. -/
def Alternative.names : Alternative → List String
  | .mk name _ slots _ => name :: TypeExpr.allNames slots

/-- The names in some alternatives. -/
def Alternative.allNames : List Alternative → List String
  | [] => []
  | alternative :: rest => alternative.names ++ Alternative.allNames rest

/-- The names in some expressions. -/
def TypeExpr.allNames : List TypeExpr → List String
  | [] => []
  | expr :: rest => expr.names ++ TypeExpr.allNames rest

end

@[simp] theorem Alternative.allNames_eq_flatMap (alternatives : List Alternative) :
    Alternative.allNames alternatives = alternatives.flatMap Alternative.names := by
  induction alternatives with
  | nil => rfl
  | cons alternative rest ih => rw [Alternative.allNames, ih, List.flatMap_cons]

@[simp] theorem TypeExpr.allNames_eq_flatMap (exprs : List TypeExpr) :
    TypeExpr.allNames exprs = exprs.flatMap TypeExpr.names := by
  induction exprs with
  | nil => rfl
  | cons expr rest ih => rw [TypeExpr.allNames, ih, List.flatMap_cons]

theorem TypeExpr.names_eq_flatMap (e : TypeExpr) :
    e.names = e.alternatives.flatMap Alternative.names := by
  cases e
  rw [names, Alternative.allNames_eq_flatMap, alternatives, List.flatMap_cons]

theorem Alternative.mem_names {a : Alternative} {name : String} :
    name ∈ a.names ↔ name = a.name ∨ ∃ slot ∈ a.slots, ∃ b ∈ slot.alternatives, name ∈ b.names := by
  cases a
  simp [Alternative.names, TypeExpr.names_eq_flatMap, Alternative.name, Alternative.slots]

/-! ## Errors of expressions -/

section Accepts

variable (registry : Registry V) (view : View V) {p : MatchError → Prop}

mutual

theorem TypeExpr.failsOnly : (e : TypeExpr) →
    (∀ name ∈ e.names, registry.Lacks name → p (.unknownType name)) →
      Test.FailsOnly p (e.accepts registry view)
  | .sum first rest, h =>
      (first.failsOnly fun name hname => h name (List.mem_append_left _ hname)).or
        (Alternative.failsOnly_any rest fun name hname => h name (List.mem_append_right _ hname))

theorem Alternative.failsOnly : (alternative : Alternative) →
    (∀ name ∈ alternative.names, registry.Lacks name → p (.unknownType name)) →
      Test.FailsOnly p (alternative.accepts registry view)
  | .mk name optional slots constraints, h => by
      have hname : (Test.ofName registry name).FailsOnly p := .ofName (h name List.mem_cons_self)
      have hslots : (Test.collection view (TypeExpr.acceptsEach registry view slots)).FailsOnly p :=
        .collection view
          (TypeExpr.failsOnly_each slots fun name hname => h name (List.mem_cons_of_mem _ hname))
      intro v error herror
      rw [Alternative.accepts_mk] at herror
      split at herror
      · contradiction
      · rcases Test.both_eq_error_iff.1 herror with hfirst | ⟨-, hrest⟩
        · exact hname v error hfirst
        · split at hrest
          · split at hrest
            · contradiction
            · exact hslots v error hrest
          · contradiction

theorem Alternative.failsOnly_any : (alternatives : List Alternative) →
    (∀ name ∈ Alternative.allNames alternatives,
      registry.Lacks name → p (.unknownType name)) →
      Test.FailsOnly p (Alternative.acceptsAny registry view alternatives)
  | [], _ => fun _ _ h => nomatch h
  | alternative :: rest, h =>
      (alternative.failsOnly fun name hname => h name (List.mem_append_left _ hname)).or
        (Alternative.failsOnly_any rest fun name hname => h name (List.mem_append_right _ hname))

theorem TypeExpr.failsOnly_each : (exprs : List TypeExpr) →
    (∀ name ∈ TypeExpr.allNames exprs, registry.Lacks name → p (.unknownType name)) →
      ∀ t ∈ TypeExpr.acceptsEach registry view exprs, Test.FailsOnly p t
  | [], _ => fun _ h => nomatch h
  | expr :: rest, h => by
      intro t ht
      obtain rfl | ht := List.mem_cons.1 ht
      · exact expr.failsOnly fun name hname => h name (List.mem_append_left _ hname)
      · exact TypeExpr.failsOnly_each rest
          (fun name hname => h name (List.mem_append_right _ hname)) t ht

end

theorem Alternative.exists_answer {alternative : Alternative}
    (h : ∀ name ∈ alternative.names, ¬ registry.Lacks name) (v : V) :
    ∃ answer, alternative.accepts registry view v = .ok answer := by
  cases hresult : alternative.accepts registry view v with
  | ok answer => exact ⟨answer, rfl⟩
  | error e =>
      exact (alternative.failsOnly registry view (p := fun _ => False)
        (fun name hname hlacks => h name hname hlacks) v e hresult).elim

variable {registry view}

/-- Every error is about a name of the expression that the registry lacks. -/
theorem TypeExpr.exists_name_of_error {e : TypeExpr} {v : V} {error : MatchError}
    (h : e.accepts registry view v = .error error) :
    ∃ name ∈ e.names, registry.Lacks name ∧ error = .unknownType name :=
  e.failsOnly registry view
    (p := fun error => ∃ name ∈ e.names, registry.Lacks name ∧ error = .unknownType name)
    (fun name hname hlacks => ⟨name, hname, hlacks, rfl⟩) v error h

theorem TypeExpr.exists_answer {e : TypeExpr} (h : ∀ name ∈ e.names, ¬ registry.Lacks name)
    (v : V) : ∃ answer, e.accepts registry view v = .ok answer := by
  cases hresult : e.accepts registry view v with
  | ok answer => exact ⟨answer, rfl⟩
  | error error =>
      obtain ⟨name, hname, hlacks, -⟩ := TypeExpr.exists_name_of_error hresult
      exact absurd hlacks (h name hname)

/-- If all alternatives have an answer, one that says yes is enough, wherever it stands. -/
theorem Alternative.acceptsAny_of_mem {alternatives : List Alternative} {v : V}
    (hanswers : ∀ a ∈ alternatives, ∃ answer, a.accepts registry view v = .ok answer)
    {a : Alternative} (ha : a ∈ alternatives) (hyes : a.accepts registry view v = .ok true) :
    Alternative.acceptsAny registry view alternatives v = .ok true := by
  induction alternatives with
  | nil => contradiction
  | cons first rest ih =>
      rw [Alternative.acceptsAny, Test.or_apply]
      obtain rfl | ha := List.mem_cons.1 ha
      · rw [hyes]
      · obtain ⟨answer, hfirst⟩ := hanswers first List.mem_cons_self
        rw [hfirst]
        cases answer with
        | true => rfl
        | false => exact ih (fun b hb => hanswers b (List.mem_cons_of_mem first hb)) ha

end Accepts

end DynTypes
