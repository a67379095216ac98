import DynTypes.Proofs.Json.ReadBack
import DynTypes.Proofs.Reading.WellFormed
import DynTypes.Regex.Builtin
import DynTypes.TypeExpr.Json
/-!
# The JSON form tells trees apart

A tree can be put together from names and constraints that no definition could hold. Its JSON form
leaves out what is not there and writes a pattern as one text; still no two trees share a form.
-/

namespace DynTypes

theorem Literal.toJson_injective : Function.Injective Literal.toJson := by
  intro first second h
  cases first <;> cases second <;> simp_all [Literal.toJson]

section

variable [RegexEngine]

/-! ## Putting a tree together -/

/-- The constraint is read from some text. -/
def Constraint.Read (c : Constraint) : Prop :=
  ∃ identifier raw, Constraint.parse identifier raw = .ok c

mutual

/-- The expression is a sum of alternatives that are put together. -/
inductive TypeExpr.Built : TypeExpr → Prop
  | ofAlternatives {alternatives : List Alternative} {e : TypeExpr}
      (halternatives : ∀ alternative ∈ alternatives, alternative.Built)
      (h : TypeExpr.ofAlternatives alternatives = .ok e) : e.Built

/-- The alternative is made of a name, to which slots and constraints are given any number of
times. -/
inductive Alternative.Built : Alternative → Prop
  | ofName (written : String) : (Alternative.ofName written).Built
  | any : Alternative.any.Built
  | holding {alternative changed : Alternative} {slots : List TypeExpr}
      (halternative : alternative.Built) (hslots : ∀ slot ∈ slots, slot.Built)
      (h : alternative.holding slots = .ok changed) : changed.Built
  | constrainedBy {alternative : Alternative} {constraints : List Constraint} {list : Constraints}
      (halternative : alternative.Built) (hconstraints : ∀ c ∈ constraints, c.Read)
      (h : Constraints.ofList constraints = .ok list) : (alternative.constrainedBy list).Built

end

theorem Alternative.eq_of_holding {alternative changed : Alternative} {slots : List TypeExpr}
    (h : alternative.holding slots = .ok changed) :
    mk alternative.name alternative.optional slots alternative.constraints = changed := by
  rw [holding] at h
  split at h
  · contradiction
  · exact Except.ok.inj h

theorem TypeExpr.Built.alternatives {e : TypeExpr} :
    e.Built → ∀ alternative ∈ e.alternatives, alternative.Built
  | @ofAlternatives _ [] _ _ h => by contradiction
  | @ofAlternatives _ (first :: rest) _ halternatives h => by
    obtain rfl := Except.ok.inj h
    exact halternatives

theorem Alternative.Built.slots {alternative : Alternative} :
    alternative.Built → ∀ slot ∈ alternative.slots, slot.Built
  | .ofName _ | .any => fun _ hslot => absurd hslot List.not_mem_nil
  | .holding _ hslots h => by
    obtain rfl := eq_of_holding h
    exact hslots
  | @constrainedBy _ (.mk _ _ _ _) _ _ halternative _ _ => halternative.slots

theorem Alternative.Built.constraints {alternative : Alternative} :
    alternative.Built → ∀ list ∈ alternative.constraints, ∀ c ∈ list.toList, c.Read
  | .ofName _ | .any => fun _ hlist => absurd hlist (Option.not_mem_none _)
  | .holding halternative _ h => by
    obtain rfl := eq_of_holding h
    exact halternative.constraints
  | @constrainedBy _ (.mk _ _ _ _) _ _ _ hconstraints h => by
    rintro list ⟨⟩
    rw [Outline.toList_of_ofList h]
    exact hconstraints

/-! ## Constraints -/

/-- No flag is a slash, so the pattern is cut at the slash where it was put together. -/
theorem Constraint.Read.slash_not_mem {pattern : Pattern} (h : (Constraint.format pattern).Read) :
    '/' ∉ pattern.flags.toList := by
  obtain ⟨identifier, raw, hparse⟩ := h
  obtain ⟨kind, -, hof⟩ := Constraint.parse_eq_ok_iff.1 hparse
  obtain rfl : kind = .format := (Constraint.kind_of_ofKind hof).symm
  obtain ⟨body, flags, read, hcut, hread, heq⟩ := Constraint.ofKind_format_eq_ok_iff.1 hof
  obtain rfl := Constraint.format.inj heq
  obtain ⟨-, hflags⟩ := Pattern.eq_of_ofParts hread
  obtain ⟨-, hsubset⟩ := Pattern.eq_of_cutLiteral? hcut
  rw [hflags, String.toList_ofList]
  intro hslash
  exact absurd (hsubset '/' hslash) (by decide)

theorem Pattern.eq_of_render_eq {first second : Pattern} (hfirst : '/' ∉ first.flags.toList)
    (hsecond : '/' ∉ second.flags.toList) (h : first.render = second.render) :
    first = second := by
  have hcut := congrArg (fun text => cutLastSlash? text.tail) h
  simp only [render, List.cons_append, List.tail_cons, cutLastSlash?_append hfirst,
    cutLastSlash?_append hsecond, Option.some.injEq, Prod.mk.injEq, String.toList_inj] at hcut
  exact ext_iff.2 hcut

theorem Constraint.kindName_eq_iff {first second : Constraint} :
    first.kindName = second.kindName ↔ first.kind = second.kind := by
  cases first <;> cases second <;> simp [kindName, kind, ConstraintKind.identifier]

theorem Constraint.Read.eq_of_toJson_eq {first second : Constraint} (hfirst : first.Read)
    (hsecond : second.Read) (h : first.toJson = second.toJson) : first = second := by
  simp only [toJson, Json.object.injEq, List.cons.injEq, Prod.mk.injEq, true_and, and_true,
    Json.text.injEq, kindName_eq_iff] at h
  obtain ⟨hkind, hvalue⟩ := h
  -- constraints of different kinds have different names
  cases first <;> cases second <;> try contradiction
  case format.format pattern other =>
    have hrender := String.ofList_injective (Json.text.inj hvalue)
    rw [Pattern.eq_of_render_eq hfirst.slash_not_mem hsecond.slash_not_mem hrender]
  case val.val literal other => rw [Literal.toJson_injective hvalue]
  case capability.capability method other => rw [Json.text.inj hvalue]
  -- the bounds
  all_goals rw [Int64.toInt_inj.1 (Json.number.inj hvalue)]

theorem Constraint.eq_of_map_toJson_eq {firsts seconds : List Constraint}
    (hfirsts : ∀ c ∈ firsts, c.Read) (hseconds : ∀ c ∈ seconds, c.Read)
    (h : firsts.map Constraint.toJson = seconds.map Constraint.toJson) : firsts = seconds := by
  induction firsts generalizing seconds with
  | nil => exact (List.map_eq_nil_iff.1 h.symm).symm
  | cons first firsts ih =>
      cases seconds with
      | nil => contradiction
      | cons second seconds =>
          rw [List.map_cons, List.map_cons, List.cons.injEq] at h
          rw [List.forall_mem_cons] at hfirsts hseconds
          rw [hfirsts.1.eq_of_toJson_eq hseconds.1 h.1, ih hfirsts.2 hseconds.2 h.2]

theorem Constraints.eq_of_toJson_eq {first second : Constraints}
    (hfirst : ∀ c ∈ first.toList, c.Read) (hsecond : ∀ c ∈ second.toList, c.Read)
    (h : first.toJson = second.toJson) : first = second := by
  have hlist := Constraint.eq_of_map_toJson_eq hfirst hsecond (Json.array.inj h)
  cases first
  cases second
  obtain rfl := hlist
  rfl

/-! ## Trees -/

/-- The members of an alternative tell its parts apart. -/
theorem Alternative.toJson_eq_iff {name name' : String} {optional optional' : Bool}
    {slots slots' : List TypeExpr} {constraints constraints' : Option Constraints} :
    (mk name optional slots constraints).toJson = (mk name' optional' slots' constraints').toJson ↔
      name = name' ∧ optional = optional' ∧
        TypeExpr.toJsonAll slots = TypeExpr.toJsonAll slots' ∧
        constraints.map Constraints.toJson = constraints'.map Constraints.toJson := by
  cases slots <;> cases slots' <;> cases constraints <;> cases constraints' <;>
    simp [toJson, TypeExpr.toJsonAll]

theorem Alternative.Built.eq_of_map_toJson_eq {first second : Alternative} (hfirst : first.Built)
    (hsecond : second.Built)
    (h : first.constraints.map Constraints.toJson = second.constraints.map Constraints.toJson) :
    first.constraints = second.constraints := by
  cases hf : first.constraints with
  | none => simp_all
  | some list =>
    cases hs : second.constraints with
    | none => simp_all
    | some other =>
      rw [hf, hs] at h
      rw [Constraints.eq_of_toJson_eq (hfirst.constraints list hf) (hsecond.constraints other hs)
        (Option.some.inj h)]

mutual

theorem TypeExpr.Built.eq_of_toJson_eq : {first second : TypeExpr} → first.Built → second.Built →
    first.toJson = second.toJson → first = second
  | .sum first rest, .sum first' rest', hfirst, hsecond, h => by
    obtain ⟨hhead, htail⟩ := List.cons.inj (Json.array.inj h)
    have hfirsts := List.forall_mem_cons.1 hfirst.alternatives
    have hseconds := List.forall_mem_cons.1 hsecond.alternatives
    rw [hfirsts.1.eq_of_toJson_eq hseconds.1 hhead,
      Alternative.eq_of_toJsonAll_eq hfirsts.2 hseconds.2 htail]

theorem Alternative.Built.eq_of_toJson_eq : {first second : Alternative} → first.Built →
    second.Built → first.toJson = second.toJson → first = second
  | .mk name optional slots constraints, .mk name' optional' slots' constraints', hfirst, hsecond,
      h => by
    obtain ⟨rfl, rfl, hslots, hconstraints⟩ := Alternative.toJson_eq_iff.1 h
    have hfirsts : ∀ slot ∈ slots, slot.Built := hfirst.slots
    have hseconds : ∀ slot ∈ slots', slot.Built := hsecond.slots
    obtain rfl := TypeExpr.eq_of_toJsonAll_eq hfirsts hseconds hslots
    obtain rfl := hfirst.eq_of_map_toJson_eq hsecond hconstraints
    rfl

theorem Alternative.eq_of_toJsonAll_eq : {firsts seconds : List Alternative} →
    (∀ alternative ∈ firsts, alternative.Built) → (∀ alternative ∈ seconds, alternative.Built) →
    Alternative.toJsonAll firsts = Alternative.toJsonAll seconds → firsts = seconds
  | [], [], _, _, _ => rfl
  | first :: firsts, second :: seconds, hfirsts, hseconds, h => by
    rw [List.forall_mem_cons] at hfirsts hseconds
    obtain ⟨hhead, htail⟩ := List.cons.inj h
    rw [hfirsts.1.eq_of_toJson_eq hseconds.1 hhead,
      Alternative.eq_of_toJsonAll_eq hfirsts.2 hseconds.2 htail]

theorem TypeExpr.eq_of_toJsonAll_eq : {firsts seconds : List TypeExpr} →
    (∀ e ∈ firsts, e.Built) → (∀ e ∈ seconds, e.Built) →
    TypeExpr.toJsonAll firsts = TypeExpr.toJsonAll seconds → firsts = seconds
  | [], [], _, _, _ => rfl
  | first :: firsts, second :: seconds, hfirsts, hseconds, h => by
    rw [List.forall_mem_cons] at hfirsts hseconds
    obtain ⟨hhead, htail⟩ := List.cons.inj h
    rw [hfirsts.1.eq_of_toJson_eq hseconds.1 hhead,
      TypeExpr.eq_of_toJsonAll_eq hfirsts.2 hseconds.2 htail]

end

namespace TypeExpr

/-- Trees whose compact JSON texts agree are the same tree. -/
theorem eq_of_compact_toJson_eq {first second : TypeExpr} (hfirst : first.Built)
    (hsecond : second.Built) (h : first.toJson.compact = second.toJson.compact) :
    first = second :=
  hfirst.eq_of_toJson_eq hsecond (Json.compact_injective h)

end TypeExpr

end

namespace TypeExpr

/-- A name with a bar and a token with a comma, with blanks around the name or without them. -/
theorem eq_of_compact_toJson_eq_unwritable :
    ∃ first second : TypeExpr,
      first.alternatives =
        [(Alternative.ofName " a|b ?").constrainedBy (.singleton (.val (.token "a, b")))] ∧
      second.alternatives =
        [(Alternative.ofName "a|b?").constrainedBy (.singleton (.val (.token "a, b")))] ∧
      first.Built ∧ second.Built ∧ first.toJson.compact = second.toJson.compact ∧
      first = second := by
  let tree (written : String) : TypeExpr :=
    sum ((Alternative.ofName written).constrainedBy (.singleton (.val (.token "a, b")))) []
  have hread : (Constraint.val (.token "a, b")).Read := ⟨"val", " a, b ", by decide +kernel⟩
  have hbuilt (written : String) : (tree written).Built := by
    refine .ofAlternatives (List.forall_mem_singleton.2 ?_) rfl
    exact .constrainedBy (.ofName written) (List.forall_mem_singleton.2 hread) rfl
  have hcompact : (tree " a|b ?").toJson.compact = (tree "a|b?").toJson.compact := by
    decide +kernel
  exact ⟨tree " a|b ?", tree "a|b?", rfl, rfl, hbuilt _, hbuilt _, hcompact,
    eq_of_compact_toJson_eq (hbuilt _) (hbuilt _) hcompact⟩

end TypeExpr

end DynTypes
