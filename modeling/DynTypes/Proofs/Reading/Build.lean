import DynTypes.Proofs.Definition.Outline
import DynTypes.TypeExpr.Basic
/-!
# The tree of an outline

What a definition means is read off its outline: each construct gives its part of the tree, in the
order of the text. Only constraint lists can be refused, so the outcome is also told by the list
of all refusals: the first of them, or the tree if there is none.
-/

namespace DynTypes

section Outcomes

variable {ε α β : Type}

@[simp] theorem ok_bind (a : α) (f : α → Except ε β) : (Except.ok a >>= f) = f a := rfl

@[simp] theorem error_bind (e : ε) (f : α → Except ε β) :
    (Except.error e >>= f) = Except.error e := rfl

theorem bind_eq_ok_iff {x : Except ε α} {f : α → Except ε β} {b : β} :
    (x >>= f) = .ok b ↔ ∃ a, x = .ok a ∧ f a = .ok b := by
  cases x with
  | error e => simp
  | ok a => simp

theorem mapError_eq_ok_iff {ε' : Type} {x : Except ε α} {f : ε → ε'} {a : α} :
    x.mapError f = .ok a ↔ x = .ok a := by
  cases x with
  | error e => exact ⟨(nomatch ·), (nomatch ·)⟩
  | ok b => exact ⟨fun h => congrArg Except.ok (Except.ok.inj h),
      fun h => congrArg Except.ok (Except.ok.inj h)⟩

/-- The error of an outcome, if it is one. -/
def errorOf? : Except ε α → Option ε
  | .error e => some e
  | .ok _ => none

@[simp] theorem errorOf?_error (e : ε) : errorOf? (.error e : Except ε α) = some e := rfl

@[simp] theorem errorOf?_ok (a : α) : errorOf? (.ok a : Except ε α) = none := rfl

@[simp] theorem errorOf?_pure (a : α) : errorOf? (pure a : Except ε α) = none := rfl

theorem errorOf?_eq_some_iff {x : Except ε α} {e : ε} : errorOf? x = some e ↔ x = .error e := by
  cases x <;> simp

/-- If the rest fails in the same way whatever comes out here, the error here comes first. -/
theorem errorOf?_bind {x : Except ε α} {f : α → Except ε β} {rest : Option ε}
    (h : ∀ a, errorOf? (f a) = rest) : errorOf? (x >>= f) = (errorOf? x).or rest := by
  cases x with
  | error e => simp
  | ok a => simpa using h a

/-- Making something of what comes out changes no error. -/
theorem errorOf?_bind_pure {x : Except ε α} (f : α → β) :
    errorOf? (x >>= fun a => pure (f a)) = errorOf? x := by
  rw [errorOf?_bind fun a => errorOf?_pure (f a), Option.or_none]

end Outcomes

namespace Outline

mutual

/-- The constraint lists of a sum, in the order of the text. -/
def lists : Outline → List (List Pair)
  | .sum first rest => listsOfElement first ++ listsOfElements rest

/-- The constraint lists of an alternative. Its slots stand in front of its own list. -/
def listsOfElement : Element → List (List Pair)
  | .named _ _ slots pairs => listsOfSlots slots ++ if pairs.isEmpty then [] else [pairs]
  | .unnamed first rest => [first :: rest]
  | .method _ => []
  | .token _ => []

/-- The constraint lists of alternatives. -/
def listsOfElements : List Element → List (List Pair)
  | [] => []
  | e :: rest => listsOfElement e ++ listsOfElements rest

/-- The constraint lists of slots. -/
def listsOfSlots : List Outline → List (List Pair)
  | [] => []
  | slot :: slots => lists slot ++ listsOfSlots slots

end

end Outline

variable [RegexEngine]

namespace Outline

/-- The constraint of a pair. -/
def Pair.build : Pair → Except DefinitionError Constraint
  | .method name => .ok (.capability (String.ofList name.chars))
  | .token word => .ok (.val (.token (String.ofList (':' :: word.chars))))
  | .value identifier written =>
    Constraint.parse (String.ofList identifier.chars) (String.ofList written.text)

/-- The constraints of a list. All pairs are read before two of them can be found to have the same
key. -/
def buildList (pairs : List Pair) : Except DefinitionError Constraints := do
  let constraints ← pairs.mapM Pair.build
  Constraints.ofList constraints

/-- The constraints of a named alternative, which may have none. -/
def buildList? : List Pair → Except DefinitionError (Option Constraints)
  | [] => .ok none
  | pair :: pairs => do
    let constraints ← buildList (pair :: pairs)
    return some constraints

/-- Any object with some constraints. -/
def anyWith (constraints : Constraints) : Alternative :=
  .mk Alternative.anyName false [] (some constraints)

mutual

/-- The expression of a sum. -/
def build : Outline → Except DefinitionError TypeExpr
  | .sum first rest => do
    let first ← buildElement first
    let rest ← buildElements rest
    return .sum first rest

/-- The alternative of an element. -/
def buildElement : Element → Except DefinitionError Alternative
  | .named name optional slots pairs => do
    let slots ← buildSlots slots
    let constraints ← buildList? pairs
    return .mk (String.ofList name.chars) optional slots constraints
  | .unnamed first rest => do
    let constraints ← buildList (first :: rest)
    return anyWith constraints
  | .method name => return anyWith (.singleton (.capability (String.ofList name.chars)))
  | .token name => return anyWith (.singleton (.val (.token (String.ofList (':' :: name.chars)))))

/-- The alternatives of elements, in order. -/
def buildElements : List Element → Except DefinitionError (List Alternative)
  | [] => return []
  | e :: rest => do
    let alternative ← buildElement e
    let alternatives ← buildElements rest
    return alternative :: alternatives

/-- The expressions of slots, in order. -/
def buildSlots : List Outline → Except DefinitionError (List TypeExpr)
  | [] => return []
  | slot :: slots => do
    let expr ← build slot
    let exprs ← buildSlots slots
    return expr :: exprs

end

theorem build_sum_cons (e next : Element) (rest : List Element) :
    build (.sum e (next :: rest)) = do
      let alternative ← buildElement e
      let expr ← build (.sum next rest)
      return .sum alternative expr.alternatives := by
  simp only [build, buildElements]
  cases buildElement e with
  | error err => rfl
  | ok alternative =>
      cases buildElement next with
      | error err => rfl
      | ok second =>
          cases buildElements rest with
          | error err => rfl
          | ok alternatives => rfl

/-! ## Refusals -/

/-- Why a pair is refused, if it is. -/
def Pair.refusal? (pair : Pair) : Option DefinitionError :=
  errorOf? pair.build

/-- What no other pair of the list may share, if the pair is not refused. -/
def Pair.key? (pair : Pair) : Option String :=
  match pair.build with
  | .error _ => none
  | .ok constraint => some constraint.key

/-- Why a list is refused, if it is: the first of its pairs that is refused or, with none, the
first of its keys that has come before. -/
def listRefusal? (pairs : List Pair) : Option DefinitionError :=
  match pairs.findSome? Pair.refusal? with
  | some e => some e
  | none => (Constraints.firstRepeated? [] (pairs.filterMap Pair.key?)).map .duplicateConstraint

/-- All refusals of a definition, in the order of the text. -/
def refusals (d : Outline) : List DefinitionError :=
  d.lists.filterMap listRefusal?

theorem buildList_cases (pairs : List Pair) :
    (∃ e, pairs.mapM Pair.build = .error e ∧ pairs.findSome? Pair.refusal? = some e) ∨
      ∃ constraints, pairs.mapM Pair.build = .ok constraints ∧
        pairs.findSome? Pair.refusal? = none ∧
        pairs.filterMap Pair.key? = constraints.map Constraint.key := by
  induction pairs with
  | nil => exact .inr ⟨[], rfl, rfl, rfl⟩
  | cons pair pairs ih =>
      rw [List.mapM_cons, List.findSome?_cons, List.filterMap_cons, Pair.refusal?, Pair.key?]
      cases hpair : pair.build with
      | error e => exact .inl ⟨e, rfl, rfl⟩
      | ok constraint =>
          obtain ⟨e, herror, hrefusal⟩ | ⟨constraints, hok, hnone, hkeys⟩ := ih
          · refine .inl ⟨e, ?_, by simpa using hrefusal⟩
            rw [herror]
            rfl
          · refine .inr ⟨constraint :: constraints, ?_, by simpa using hnone, ?_⟩
            · rw [hok]
              rfl
            · simp [hkeys]

theorem errorOf?_ofList {constraints : List Constraint} (hne : constraints ≠ []) :
    errorOf? (Constraints.ofList constraints) =
      (Constraints.firstRepeated? [] (constraints.map Constraint.key)).map
        .duplicateConstraint := by
  rw [Constraints.ofList, dif_neg hne]
  split
  · next key h => simp [h]
  · next h => simp [h]

theorem errorOf?_buildList {pairs : List Pair} (hne : pairs ≠ []) :
    errorOf? (buildList pairs) = listRefusal? pairs := by
  rw [buildList, listRefusal?]
  obtain ⟨e, herror, hrefusal⟩ | ⟨constraints, hok, hnone, hkeys⟩ := buildList_cases pairs
  · rw [herror, hrefusal]
    rfl
  · have hconstraints : constraints ≠ [] := by
      rintro rfl
      cases pairs with
      | nil => exact hne rfl
      | cons pair pairs =>
          rw [List.mapM_cons] at hok
          obtain ⟨constraint, -, hrest⟩ := bind_eq_ok_iff.1 hok
          obtain ⟨constraints, -, hcons⟩ := bind_eq_ok_iff.1 hrest
          cases hcons
    rw [hok, hnone, hkeys]
    exact errorOf?_ofList hconstraints

theorem errorOf?_buildList? (pairs : List Pair) :
    errorOf? (buildList? pairs) =
      (if pairs.isEmpty then [] else [pairs]).findSome? listRefusal? := by
  cases pairs with
  | nil => rfl
  | cons pair pairs =>
      rw [buildList?, errorOf?_bind_pure, errorOf?_buildList (List.cons_ne_nil pair pairs)]
      simp

mutual

theorem errorOf?_build : (d : Outline) → errorOf? (build d) = d.lists.findSome? listRefusal?
  | .sum first rest => by
      rw [build, lists, List.findSome?_append, ← errorOf?_buildElement first,
        ← errorOf?_buildElements rest]
      refine errorOf?_bind fun alternative => ?_
      exact errorOf?_bind_pure _

theorem errorOf?_buildElement : (e : Element) →
    errorOf? (buildElement e) = (listsOfElement e).findSome? listRefusal?
  | .named name optional slots pairs => by
      rw [buildElement, listsOfElement, List.findSome?_append, ← errorOf?_buildSlots slots,
        ← errorOf?_buildList? pairs]
      refine errorOf?_bind fun exprs => ?_
      exact errorOf?_bind_pure _
  | .unnamed first rest => by
      rw [buildElement, errorOf?_bind_pure,
        errorOf?_buildList (List.cons_ne_nil first rest)]
      simp [listsOfElement]
  | .method name => rfl
  | .token name => rfl

theorem errorOf?_buildElements : (elements : List Element) →
    errorOf? (buildElements elements) = (listsOfElements elements).findSome? listRefusal?
  | [] => rfl
  | e :: rest => by
      rw [buildElements, listsOfElements, List.findSome?_append, ← errorOf?_buildElement e,
        ← errorOf?_buildElements rest]
      refine errorOf?_bind fun alternative => ?_
      exact errorOf?_bind_pure _

theorem errorOf?_buildSlots : (slots : List Outline) →
    errorOf? (buildSlots slots) = (listsOfSlots slots).findSome? listRefusal?
  | [] => rfl
  | slot :: slots => by
      rw [buildSlots, listsOfSlots, List.findSome?_append, ← errorOf?_build slot,
        ← errorOf?_buildSlots slots]
      refine errorOf?_bind fun expr => ?_
      exact errorOf?_bind_pure _

end

/-- A definition is refused with the first of its refusals. -/
theorem build_eq_error_iff (d : Outline) (e : DefinitionError) :
    build d = .error e ↔ d.refusals.head? = some e := by
  rw [refusals, List.head?_filterMap, ← errorOf?_build, errorOf?_eq_some_iff]

end Outline

end DynTypes
