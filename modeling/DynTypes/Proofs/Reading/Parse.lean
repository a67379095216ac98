import DynTypes.Proofs.Grammar.Soundness
import DynTypes.Proofs.Reading.Assembly
import DynTypes.Regex.Builtin
/-!
# What parsing answers

The two passes over a definition agree. A text that keeps the grammar is the spelling of some
outline; the assembly builds the tree of that outline, or reports the first of its refusals.
-/

namespace DynTypes

open Outline

section

variable [RegexEngine]

namespace TypeExpr

variable {d : Outline}

theorem parse_eq_build {definition : String} (hd : d.Spells definition.toList) :
    parse definition = d.build := by
  have hcheck : Grammar.check definition.toList = .ok () := Grammar.check_of_spells hd
  rw [parse, Grammar.validate, hcheck]
  exact assemble_eq_build hd

end TypeExpr

end

namespace TypeExpr

/-- The outline of `Array<:ok|Integer?(min:1,#odd?)>`. -/
def sample : Outline :=
  let bound := Pair.value (.ofText _ "min" (by decide)) (.bare (.ofText _ "1" (by decide)))
  let method := Pair.method (.ofText _ "odd?" (by decide))
  let number := Element.named (.ofText _ "Integer" (by decide)) true [] [bound, method]
  .sum (.named (.ofText _ "Array" (by decide)) false
    [.sum (.token (.ofText _ "ok" (by decide))) [number]] []) []

end TypeExpr

/-! ## Refusals -/

section

variable [RegexEngine]

/-- The errors that a definition in keeping with the grammar can give. -/
inductive DefinitionError.IsRefusal : DefinitionError → Prop where
  | unknown (identifier : String) : IsRefusal (.unknownConstraint identifier)
  | duplicate (key : String) : IsRefusal (.duplicateConstraint key)
  | invalid (identifier value : String) {fault : ConstraintFault} (hmethod : fault ≠ .emptyMethod)
      (hliteral : fault ≠ .emptyLiteral) : IsRefusal (.invalidConstraint identifier value fault)

open DefinitionError (IsRefusal)

/-- Reads the value of one of the three constraints with a bound. -/
def Constraint.ofBound (make : Int64 → Constraint) (raw : String) :
    Except ConstraintFault Constraint :=
  match Constraint.readBound? raw with
  | some bound => .ok (make bound)
  | none => .error .notInteger

theorem Constraint.ofKind_len (raw : String) :
    Constraint.ofKind .len raw = Constraint.ofBound .len raw :=
  rfl

theorem Constraint.ofKind_min (raw : String) :
    Constraint.ofKind .min raw = Constraint.ofBound .min raw :=
  rfl

theorem Constraint.ofKind_max (raw : String) :
    Constraint.ofKind .max raw = Constraint.ofBound .max raw :=
  rfl

theorem Constraint.ofBound_fault {make : Int64 → Constraint} {raw : String}
    {fault : ConstraintFault} (h : Constraint.ofBound make raw = .error fault) :
    fault = .notInteger := by
  unfold Constraint.ofBound at h
  split at h
  · contradiction
  · exact (Except.error.inj h).symm

/-- Only a value without characters is empty. -/
theorem Constraint.ofKind_fault {kind : ConstraintKind} {raw : String} (hraw : raw ≠ "")
    {fault : ConstraintFault} (h : Constraint.ofKind kind raw = .error fault) :
    fault ≠ .emptyMethod ∧ fault ≠ .emptyLiteral := by
  cases kind with
  | capability =>
      rw [Constraint.ofKind, if_neg hraw] at h
      contradiction
  | format =>
      unfold Constraint.ofKind at h
      dsimp only at h
      split at h
      · cases h
        exact ⟨by decide, by decide⟩
      · split at h
        · contradiction
        · cases h
          exact ⟨by simp, by simp⟩
  | len =>
      obtain rfl := Constraint.ofBound_fault h
      exact ⟨by decide, by decide⟩
  | min =>
      obtain rfl := Constraint.ofBound_fault h
      exact ⟨by decide, by decide⟩
  | max =>
      obtain rfl := Constraint.ofBound_fault h
      exact ⟨by decide, by decide⟩
  | val =>
      rw [Constraint.ofKind, if_neg hraw] at h
      contradiction

theorem Outline.Pair.isRefusal {pair : Pair} {e : DefinitionError} (h : pair.refusal? = some e) :
    e.IsRefusal := by
  rw [Pair.refusal?, errorOf?_eq_some_iff] at h
  cases pair with
  | method name => contradiction
  | token word => contradiction
  | value identifier written =>
      have hraw : String.ofList (Text.trim (String.ofList written.text).toList) ≠ "" := by
        rw [String.toList_ofList, written.trimmed.trim_eq]
        exact ofList_ne_empty written.text_ne_nil
      rw [Pair.build, Constraint.parse] at h
      split at h
      · cases h
        exact .unknown _
      · next kind hkind =>
        dsimp only at h
        cases hof : Constraint.ofKind kind _ with
        | ok constraint =>
            rw [hof] at h
            cases h
        | error fault =>
            rw [hof] at h
            cases h
            obtain ⟨hmethod, hliteral⟩ := Constraint.ofKind_fault hraw hof
            exact .invalid _ _ hmethod hliteral

theorem Outline.isRefusal_of_mem {d : Outline} {e : DefinitionError} (h : e ∈ d.refusals) :
    e.IsRefusal := by
  obtain ⟨pairs, -, hpairs⟩ := List.mem_filterMap.1 h
  rw [listRefusal?] at hpairs
  split at hpairs
  · next e' hfirst =>
    obtain rfl := Option.some.inj hpairs
    obtain ⟨pair, -, hpair⟩ := List.exists_of_findSome?_eq_some hfirst
    exact pair.isRefusal hpair
  · obtain ⟨key, -, rfl⟩ := Option.map_eq_some_iff.1 hpairs
    exact .duplicate key

theorem TypeExpr.exists_outline {definition : String} (h : Grammar.validate definition = .ok ()) :
    ∃ d : Outline, d.Spells definition.toList ∧ TypeExpr.parse definition = d.build := by
  obtain ⟨d, hd⟩ := Grammar.exists_spells_of_check h
  exact ⟨d, hd, TypeExpr.parse_eq_build hd⟩

/-- The two passes never disagree: a text outside the grammar is refused with the error of the
first pass, and a text that keeps it gives a tree or the refusal of a constraint. -/
theorem TypeExpr.parse_agrees_with_validate (definition : String) :
    (∃ e, Grammar.validate definition = .error e ∧
        TypeExpr.parse definition = .error (.malformed e)) ∨
      Grammar.validate definition = .ok () ∧
        ((∃ expr, TypeExpr.parse definition = .ok expr) ∨
          ∃ e, TypeExpr.parse definition = .error e ∧ e.IsRefusal) := by
  cases hvalidate : Grammar.validate definition with
  | error e =>
      refine .inl ⟨e, rfl, ?_⟩
      rw [TypeExpr.parse, hvalidate]
      rfl
  | ok _ =>
      obtain ⟨d, -, hparse⟩ := TypeExpr.exists_outline hvalidate
      refine .inr ⟨rfl, ?_⟩
      cases hbuild : d.build with
      | ok expr => exact .inl ⟨expr, hparse.trans hbuild⟩
      | error e =>
          have hhead : d.refusals.head? = some e := (build_eq_error_iff d e).1 hbuild
          exact .inr ⟨e, hparse.trans hbuild, isRefusal_of_mem (List.mem_of_mem_head? hhead)⟩

end

end DynTypes
