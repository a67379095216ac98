import DynTypes.Proofs.Matching.Meaning
import DynTypes.Regex.Builtin
import DynTypes.Value.TypeTable
/-!
# The order of alternatives and constraints

Expressions that have the same alternatives in any order and any number, with constraints in any
order, at every depth, admit the same values. So matching cannot give them different answers; it
can only come to a name that it does not know with the one and not with the other.
-/

namespace DynTypes

theorem map_eq_of_zip {α β : Type} {f : α → β} {slots slots' : List α}
    (hlength : slots.length = slots'.length) (h : ∀ p ∈ slots.zip slots', f p.1 = f p.2) :
    slots.map f = slots'.map f := by
  rw [← List.forall₂_eq_eq_eq, List.forall₂_map_left_iff, List.forall₂_map_right_iff,
    List.forall₂_iff_zip]
  exact ⟨hlength, fun hp => h _ hp⟩

section

variable [RegexEngine]

mutual

/-- The expressions have the same alternatives, each as often as it likes, where the alternatives
are rearranged inside. The pairs tell which of the one has become which of the other. -/
inductive TypeExpr.Rearranged : TypeExpr → TypeExpr → Prop
  | intro {e e' : TypeExpr} (pairs : List (Alternative × Alternative))
      (hfst : ∀ a, a ∈ e.alternatives ↔ a ∈ pairs.map Prod.fst)
      (hsnd : ∀ a, a ∈ e'.alternatives ↔ a ∈ pairs.map Prod.snd)
      (heach : ∀ p ∈ pairs, Alternative.Rearranged p.1 p.2) : TypeExpr.Rearranged e e'

/-- The alternatives have the same constraints in any order, and their slots are rearranged inside,
each at its place. -/
inductive Alternative.Rearranged : Alternative → Alternative → Prop
  | intro {name : String} {optional : Bool} {slots slots' : List TypeExpr}
      {constraints constraints' : Option Constraints}
      (hlength : slots.length = slots'.length)
      (heach : ∀ p ∈ slots.zip slots', TypeExpr.Rearranged p.1 p.2)
      (hconstraints : Option.Rel (fun list list' => list.toList.Perm list'.toList)
        constraints constraints') :
      Alternative.Rearranged (.mk name optional slots constraints)
        (.mk name optional slots' constraints')

end

mutual

theorem TypeExpr.Rearranged.refl : (e : TypeExpr) → e.Rearranged e
  | .sum first rest => by
      have hfirst := Alternative.Rearranged.refl first
      have hrest := Alternative.rearranged_self rest
      refine .intro ((first :: rest).map fun a => (a, a)) ?_ ?_ ?_
      · simp [TypeExpr.alternatives]
      · simp [TypeExpr.alternatives]
      · simpa using ⟨hfirst, hrest⟩

theorem Alternative.Rearranged.refl : (a : Alternative) → a.Rearranged a
  | .mk _ _ slots constraints => by
      refine .intro rfl (TypeExpr.rearranged_self slots) ?_
      cases constraints with
      | none => exact .none
      | some list => exact .some (.refl _)

theorem Alternative.rearranged_self : (alternatives : List Alternative) →
    ∀ a ∈ alternatives, a.Rearranged a
  | [] => fun _ h => nomatch h
  | first :: rest =>
      List.forall_mem_cons.2 ⟨.refl first, Alternative.rearranged_self rest⟩

theorem TypeExpr.rearranged_self : (slots : List TypeExpr) →
    ∀ p ∈ slots.zip slots, p.1.Rearranged p.2
  | [] => fun _ h => nomatch h
  | first :: rest => by
      rw [List.zip_cons_cons]
      exact List.forall_mem_cons.2 ⟨.refl first, TypeExpr.rearranged_self rest⟩

end

/-- The same alternatives in any order, each as often as it likes. -/
theorem TypeExpr.Rearranged.of_mem_iff {e e' : TypeExpr}
    (h : ∀ a, a ∈ e.alternatives ↔ a ∈ e'.alternatives) : e.Rearranged e' := by
  refine .intro (e.alternatives.map fun a => (a, a)) (by simp) (by simp [h]) ?_
  simpa using fun a _ => Alternative.Rearranged.refl a

/-! ## What rearranging keeps -/

/-- What some alternative has, some alternative has after rearranging, if its partners have it. -/
theorem exists_mem_iff_of_pairs (fact : Alternative → Prop)
    {alternatives alternatives' : List Alternative} {pairs : List (Alternative × Alternative)}
    (hfst : ∀ a, a ∈ alternatives ↔ a ∈ pairs.map Prod.fst)
    (hsnd : ∀ a, a ∈ alternatives' ↔ a ∈ pairs.map Prod.snd)
    (h : ∀ p ∈ pairs, fact p.1 = fact p.2) :
    (∃ a ∈ alternatives, fact a) ↔ ∃ a ∈ alternatives', fact a := by
  simp only [hfst, hsnd, List.mem_map]
  constructor
  · rintro ⟨_, ⟨p, hp, rfl⟩, ha⟩
    exact ⟨p.2, ⟨p, hp, rfl⟩, h p hp ▸ ha⟩
  · rintro ⟨_, ⟨p, hp, rfl⟩, ha⟩
    exact ⟨p.1, ⟨p, hp, rfl⟩, h p hp ▸ ha⟩

theorem all_accepts_eq_of_rel {V : Type} (view : View V) (v : V)
    {constraints constraints' : Option Constraints}
    (h : Option.Rel (fun list list' => list.toList.Perm list'.toList) constraints constraints') :
    constraints.all (·.accepts view v) = constraints'.all (·.accepts view v) := by
  cases h with
  | some hperm => exact hperm.all_eq
  | none => rfl

mutual

theorem TypeExpr.Rearranged.mem_names_eq (name : String) : {e e' : TypeExpr} → e.Rearranged e' →
    (name ∈ e.names) = (name ∈ e'.names)
  | e, e', .intro pairs hfst hsnd heach => by
      have hpair := fun p hp => (heach p hp).mem_names_eq name
      simp only [TypeExpr.names_eq_flatMap, List.mem_flatMap]
      exact propext (exists_mem_iff_of_pairs (name ∈ ·.names) hfst hsnd hpair)

theorem Alternative.Rearranged.mem_names_eq (name : String) : {a a' : Alternative} →
    a.Rearranged a' → (name ∈ a.names) = (name ∈ a'.names)
  | .mk _ _ slots _, .mk _ _ slots' _, .intro hlength heach _ => by
      have hslots : slots.map (name ∈ ·.names) = slots'.map (name ∈ ·.names) :=
        map_eq_of_zip hlength fun p hp => (heach p hp).mem_names_eq name
      have htrue (slots : List TypeExpr) :
          name ∈ TypeExpr.allNames slots ↔ True ∈ slots.map (name ∈ ·.names) := by
        simp
      simp only [Alternative.names, List.mem_cons, htrue, hslots]

end

section Admits

variable {V : Type} {registry : Registry V} {view : View V}

mutual

theorem TypeExpr.Rearranged.admits_eq : {e e' : TypeExpr} → e.Rearranged e' →
    e.Admits registry view = e'.Admits registry view
  | e, e', .intro pairs hfst hsnd heach => by
      have hpair := fun p hp => (heach p hp).admits_eq
      funext v
      rw [TypeExpr.admits_iff, TypeExpr.admits_iff]
      exact propext (exists_mem_iff_of_pairs (·.Admits registry view v) hfst hsnd
        fun p hp => congrFun (hpair p hp) v)

theorem Alternative.Rearranged.admits_eq : {a a' : Alternative} → a.Rearranged a' →
    a.Admits registry view = a'.Admits registry view
  | .mk _ _ slots _, .mk _ _ slots' _, .intro hlength heach hconstraints => by
      have hslots := map_eq_of_zip hlength fun p hp => (heach p hp).admits_eq
      have hnil : slots = [] ↔ slots' = [] := by
        rw [← List.length_eq_zero_iff, hlength, List.length_eq_zero_iff]
      funext v
      rw [Alternative.admits_iff, Alternative.admits_iff, hslots,
        all_accepts_eq_of_rel view v hconstraints, hnil]

end

end Admits

/-- Whatever the order of alternatives and constraints, no two answers differ; and where every name
is known there is an answer either way. -/
theorem accepts_rearranged {V : Type} (registry : Registry V) (view : View V) {e e' : TypeExpr}
    (h : e.Rearranged e') (v : V) :
    (∀ answer answer', e.accepts registry view v = .ok answer →
      e'.accepts registry view v = .ok answer' → answer = answer') ∧
    ((∀ name ∈ e.names, name ≠ Alternative.booleanName → (registry.resolve name).isSome) →
      ∃ answer, e.accepts registry view v = .ok answer ∧
        e'.accepts registry view v = .ok answer) := by
  have hsame : ∀ answer answer', e.accepts registry view v = .ok answer →
      e'.accepts registry view v = .ok answer' → answer = answer' := by
    intro answer answer' hanswer hanswer'
    -- each answer says whether the value is admitted, and both expressions admit the same values
    have hadmits := e.decides v answer hanswer
    have hadmits' := e'.decides v answer' hanswer'
    rw [← h.admits_eq] at hadmits'
    exact Bool.eq_iff_iff.2 (hadmits.trans hadmits'.symm)
  refine ⟨hsame, fun hresolve => ?_⟩
  have hnames (name : String) (hname : name ∈ e.names) : ¬ registry.Lacks name :=
    Registry.not_lacks_iff.2 (hresolve name hname)
  obtain ⟨answer, hanswer⟩ := TypeExpr.exists_answer hnames v
  obtain ⟨answer', hanswer'⟩ :=
    TypeExpr.exists_answer (fun name hname => hnames name (h.mem_names_eq name ▸ hname)) v
  obtain rfl := hsame answer answer' hanswer hanswer'
  exact ⟨answer, hanswer, hanswer'⟩

end

/-- A list of texts or integers, or a widget: the widget first and everything else turned round. The
list is told by the one and not by the other, as long as no widgets are known. -/
theorem accepts_rearranged_widget :
    let string : Alternative := .mk "String" false [] none
    let integer : Alternative := .mk "Integer" false [] none
    let widget : Alternative := .mk "Widget" false [] none
    let list : Constraints := ⟨[.len 1, .min 0], by simp, by decide⟩
    let list' : Constraints := ⟨[.min 0, .len 1], by simp, by decide⟩
    let array : Alternative := .mk "Array" false [.sum string [integer]] (some list)
    let array' : Alternative :=
      .mk "Array" false [.sum integer [string, integer]] (some list')
    let e : TypeExpr := .sum array [widget]
    let e' : TypeExpr := .sum widget [array', array']
    let v : Value := .array [.str "x"]
    let registry := TypeTable.builtin.toRegistry
    let complete := (TypeTable.builtin.registerClass "Widget").toRegistry
    e.Rearranged e' ∧ e.accepts registry Value.view v = .ok true ∧
      e'.accepts registry Value.view v ≠ .ok false ∧
      (∀ name ∈ e.names, name ≠ Alternative.booleanName → (complete.resolve name).isSome) ∧
      ∃ answer, e.accepts complete Value.view v = .ok answer ∧
        e'.accepts complete Value.view v = .ok answer := by
  intro string integer widget list list' array array' e e' v registry complete
  have hslot : (TypeExpr.sum string [integer]).Rearranged (.sum integer [string, integer]) :=
    .of_mem_iff fun a => by simp [TypeExpr.alternatives, or_comm]
  have harray : array.Rearranged array' := by
    refine .intro rfl ?_ (.some (.swap _ _ _))
    simpa using hslot
  have h : e.Rearranged e' := by
    refine .intro [(array, array'), (widget, widget)] (fun a => Iff.rfl) (fun a => ?_) ?_
    · simp [e', TypeExpr.alternatives, or_comm]
    · simpa using ⟨harray, .refl widget⟩
  have hyes : e.accepts registry Value.view v = .ok true := rfl
  have hcomplete : ∀ name ∈ e.names, name ≠ Alternative.booleanName →
      (complete.resolve name).isSome := by
    decide
  have hno : e'.accepts registry Value.view v ≠ .ok false :=
    fun hno => nomatch (accepts_rearranged registry Value.view h v).1 true false hyes hno
  exact ⟨h, hyes, hno, hcomplete, (accepts_rearranged complete Value.view h v).2 hcomplete⟩

end DynTypes
