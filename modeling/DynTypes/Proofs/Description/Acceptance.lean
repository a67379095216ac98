import DynTypes.Proofs.Description.Tree
import DynTypes.Proofs.Grammar.Accepts
import DynTypes.Value.View
/-!
# Which descriptions are definitions

The description of a value is a definition if the names of the types are words, unless items are
emitted that all have no parts: then angle brackets are written with nothing between them, and no
definition holds those.
-/

namespace DynTypes

open Outline (IsWord isNameChar Undelimited)

/-! ## Empty angle brackets -/

namespace Grammar

open Token

variable {phase : Phase} {depth : Nat} {rest : List Char}

theorem after_openAngle {next : Phase} {opened : Nat}
    (h : phase.after depth openAngle = some (next, opened)) : next = .start := by
  cases phase <;> cases h <;> rfl

/-- Behind an opening angle bracket an alternative has to start. -/
theorem not_accepts_emptySlots {front : List Char} (hfront : Undelimited front) :
    ¬ Accepts phase depth (front ++ '<' :: '>' :: rest) := by
  induction front generalizing phase depth with
  | nil =>
      intro h
      obtain ⟨next, opened, hafter, hrest⟩ := Accepts.exists_after (by decide) h
      obtain rfl := after_openAngle hafter
      obtain ⟨_, _, hnone, -⟩ := hrest.exists_after (by decide)
      contradiction
  | cons c front ih =>
      intro h
      obtain ⟨hc, hfront⟩ := List.forall_mem_cons.1 hfront
      obtain ⟨next, opened, -, hrest⟩ := Accepts.exists_after hc h
      exact ih hfront hrest

end Grammar

/-! ## The texts in a description -/

theorem isInfix_intercalate {α : Type} {text : List α} {texts : List (List α)}
    (h : text ∈ texts) (separator : List α) : text <:+: separator.intercalate texts := by
  induction texts with
  | nil => contradiction
  | cons first texts ih =>
      cases texts with
      | nil =>
          obtain rfl := List.mem_singleton.1 h
          rw [List.intercalate_singleton]
      | cons next texts =>
          rw [List.intercalate_cons_cons]
          obtain rfl | h := List.mem_cons.1 h
          · rw [List.append_assoc]
            exact (List.prefix_append _ _).isInfix
          · exact (ih h).trans (List.suffix_append _ _).isInfix

section DescribeItems

variable {name : List Char} {items : List (List (List Char))}

theorem isInfix_describeItems {row : List (List Char)} {text : List Char} (hrow : row ∈ items)
    (htext : text ∈ row) : text <:+: describeItems name items := by
  obtain ⟨k, hk, rfl⟩ := List.getElem_of_mem htext
  obtain ⟨hcolumn, hmem⟩ := mem_columns_of_mem hrow hk
  let slot : List (List Char) → List Char := fun parts => ['|'].intercalate parts.eraseDups
  have hpart : row[k] <:+: slot (columns items)[k] :=
    isInfix_intercalate (List.mem_eraseDups.2 hmem) _
  have hslot : slot (columns items)[k] <:+: [','].intercalate ((columns items).map slot) :=
    isInfix_intercalate (List.mem_map_of_mem (List.getElem_mem hcolumn)) _
  exact (hpart.trans hslot).trans ⟨name ++ ['<'], ['>'], by simp [describeItems, slot]⟩

theorem describeItems_of_empty (h : ∀ row ∈ items, row = []) :
    describeItems name items = name ++ ['<', '>'] := by
  have hcolumns : columns items = [] := by
    apply List.eq_nil_of_length_eq_zero
    apply Nat.eq_zero_of_not_pos
    intro hpos
    obtain ⟨row, hrow, hlength⟩ := lt_length_columns.1 hpos
    rw [h row hrow] at hlength
    contradiction
  rw [describeItems, hcolumns]
  simp

theorem undelimited_describeItems (hname : Undelimited name)
    (h : ∀ row ∈ items, ∀ text ∈ row, Undelimited text) :
    Undelimited (describeItems name items) := by
  have hbar : Undelimited ['|'] := List.forall_mem_singleton.2 (by decide)
  have hcomma : Undelimited [','] := List.forall_mem_singleton.2 (by decide)
  have hclose : Undelimited ['>'] := List.forall_mem_singleton.2 (by decide)
  have hslots : ∀ slot ∈ (columns items).map fun parts => ['|'].intercalate parts.eraseDups,
      Undelimited slot := by
    rw [List.forall_mem_map]
    intro column hcolumn
    refine .intercalate hbar fun text htext => ?_
    obtain ⟨row, hrow, hmem⟩ := exists_row_of_mem_columns hcolumn (List.mem_eraseDups.1 htext)
    exact h row hrow text hmem
  exact (hname.append (.cons (by decide) (.intercalate hcomma hslots))).append hclose

end DescribeItems

/-- Whatever emits items inside the value emits one that has parts. -/
def View.FillsBrackets {V : Type} (view : View V) (v : V) : Prop :=
  ∀ w, view.Inside w v → view.rows w ≠ [] → ∃ row ∈ view.rows w, row ≠ []

namespace View

variable {V : Type} {view : View V}

/-- Whatever lies inside a finite value is finite, and its description is written there. -/
theorem exists_describe_isInfix {w : V} {v : view.Finite} (h : view.Inside w v.val) :
    ∃ hw : Acc view.IsPart w, view.describe ⟨w, hw⟩ <:+: view.describe v := by
  induction h using Relation.ReflTransGen.head_induction_on with
  | refl => exact ⟨v.property, List.infix_refl _⟩
  | @head part whole hpart _ ih =>
      obtain ⟨hwhole, hinfix⟩ := ih
      refine ⟨hwhole.inv hpart, .trans ?_ hinfix⟩
      obtain ⟨row, hrow, hmem⟩ := id hpart
      rw [describe_eq ⟨whole, hwhole⟩, if_neg (List.ne_nil_of_mem hrow)]
      rw [← Finite.map_val_rows ⟨whole, hwhole⟩, List.mem_map] at hrow
      obtain ⟨row, hrow, rfl⟩ := hrow
      obtain ⟨cell, hcell, rfl⟩ := List.mem_map.1 hmem
      exact isInfix_describeItems (List.mem_map_of_mem hrow) (List.mem_map_of_mem hcell)

theorem undelimited_describe (v : view.Finite)
    (hnames : ∀ w, view.Inside w v.val → IsWord isNameChar (view.typeName w)) :
    Undelimited (view.describe v) := by
  obtain ⟨v, hv⟩ := v
  induction hv with
  | intro v hacc ih =>
    have hname : Undelimited (view.typeName v).toList := .of_nameChars (hnames v .refl).2
    rw [describe_eq]
    split
    · exact hname
    · apply undelimited_describeItems hname
      simp only [List.forall_mem_map]
      intro row hrow part hpart
      have hinside := Finite.isPart_of_mem_rows hrow hpart
      exact ih part.val hinside fun w hw => hnames w (hw.tail hinside)

/-- Empty angle brackets are written wherever items are emitted that all have no parts. -/
theorem describe_of_empty {w : view.Finite} (hne : view.rows w.val ≠ [])
    (hempty : ∀ row ∈ view.rows w.val, row = []) :
    view.describe w = (view.typeName w.val).toList ++ ['<', '>'] := by
  rw [describe_eq, if_neg hne]
  apply describeItems_of_empty
  simp only [← w.map_val_rows, List.forall_mem_map, List.map_eq_nil_iff] at hempty ⊢
  exact hempty

theorem validate_describe (v : view.Finite)
    (hnames : ∀ w, view.Inside w v.val → IsWord isNameChar (view.typeName w)) :
    Grammar.validate (String.ofList (view.describe v)) = .ok () ↔ view.FillsBrackets v.val := by
  constructor
  · intro hvalid w hw hne
    by_contra hnone
    have hempty : ∀ row ∈ view.rows w, row = [] := by simpa using hnone
    obtain ⟨hfinite, before, behind, htext⟩ := exists_describe_isInfix hw
    have hplain := undelimited_describe v hnames
    rw [describe_of_empty (w := ⟨w, hfinite⟩) hne hempty] at htext
    rw [← htext, List.append_assoc, List.append_assoc, ← List.append_assoc] at hplain
    rw [Grammar.validate, String.toList_ofList, Grammar.check_eq_ok_iff, ← htext] at hvalid
    have haccepts : Grammar.Accepts .start 0
        ((before ++ (view.typeName w).toList) ++ '<' :: '>' :: behind) := by simpa using hvalid
    exact Grammar.not_accepts_emptySlots (List.forall_mem_append.1 hplain).1 haccepts
  · intro h
    have hdescribable : ∀ w, view.Inside w v.val → view.Describable w :=
      fun w hw => ⟨hnames w hw, h w hw⟩
    -- a description holds no patterns, so it is read by whatever engine
    let engine : RegexEngine := ⟨Unit, fun _ _ => .ok (), fun _ _ => true⟩
    exact TypeExpr.validate_of_parse (parse_describe v hdescribable)

end View

/-- Where the names of the types inside of a finite value are words, its description is a definition
just when no items are emitted there that all have no parts. This holds of the finite values of
every host, so it holds of all values where there are no others. -/
theorem validate_describe_iff {V : Type} (view : View V) :
    (∀ v : view.Finite, (∀ w, view.Inside w v.val → IsWord isNameChar (view.typeName w)) →
      (Grammar.validate (String.ofList (view.describe v)) = .ok () ↔ view.FillsBrackets v.val)) ∧
    ∀ (nesting : Nesting view) (v : V),
      (∀ w, view.Inside w v → IsWord isNameChar (view.typeName w)) →
        (Grammar.validate (String.ofList (describe nesting v)) = .ok () ↔
          view.FillsBrackets v) :=
  ⟨View.validate_describe, fun nesting v => View.validate_describe (nesting.finite v)⟩

/-- A list of a text, of a pair and of a tuple without parts. -/
theorem validate_describe_iff_tuples :
    let v : Value := .array [.str "x", .array [.bool true, .nil], .array []]
    (∀ w, Value.tupleView.Inside w v → IsWord isNameChar (Value.tupleView.typeName w)) ∧
      Value.tupleView.FillsBrackets v ∧
      Grammar.validate (String.ofList (describe Value.tupleNesting v)) = .ok () ∧
      Grammar.validate (String.ofList (Value.tupleView.describe
        (Value.tupleNesting.finite v))) = .ok () := by
  intro v
  have hinside : ∀ w, Value.tupleView.Inside w v →
      w = v ∨ w = .str "x" ∨ w = .bool true ∨ w = .nil := by
    intro w hw
    obtain rfl | ⟨part, hpart, row, hrow, hmem⟩ := View.inside_iff.1 hw
    · exact .inl rfl
    · have hrow : row ∈ [[Value.str "x"], [.bool true, .nil], []] := hrow
      have hcases : part = .str "x" ∨ part = .bool true ∨ part = .nil := by
        simp only [List.mem_cons, List.not_mem_nil, or_false] at hrow
        rcases hrow with rfl | rfl | rfl <;> simp_all
      have hnone : Value.tupleView.items part = none := by
        rcases hcases with rfl | rfl | rfl <;> rfl
      obtain rfl | ⟨inner, -, hinner⟩ := View.inside_iff.1 hpart
      · exact .inr hcases
      · exact absurd hinner (View.not_isPart_of_items hnone)
  have hnames : ∀ w, Value.tupleView.Inside w v →
      IsWord isNameChar (Value.tupleView.typeName w) := by
    intro w hw
    rcases hinside w hw with rfl | rfl | rfl | rfl <;> decide
  have hfills : Value.tupleView.FillsBrackets v := by
    intro w hw hne
    rcases hinside w hw with rfl | rfl | rfl | rfl
    · exact ⟨[.str "x"], .head _, List.cons_ne_nil _ _⟩
    all_goals exact absurd rfl hne
  obtain ⟨hfinite, hnesting⟩ := validate_describe_iff Value.tupleView
  exact ⟨hnames, hfills, (hnesting Value.tupleNesting v hnames).2 hfills,
    (hfinite (Value.tupleNesting.finite v) hnames).2 hfills⟩

/-- A host whose names are all words describes a list of a tuple without parts by a text that is no
definition. -/
theorem not_validate_describe :
    let view : View Value := { Value.tupleView with
      typeName := fun v =>
        if IsWord isNameChar (Value.tupleView.typeName v) then Value.tupleView.typeName v
        else "Object" }
    (∀ v, IsWord isNameChar (view.typeName v)) ∧
      ∃ nesting : Nesting view, describe nesting (.array [.array []]) = "Array<>".toList ∧
        Grammar.validate (String.ofList (describe nesting (.array [.array []]))) ≠ .ok () := by
  intro view
  let nesting : Nesting view := ⟨Value.tupleNesting.depth, Value.tupleNesting.depth_lt⟩
  have hdescribe : describe nesting (.array [.array []]) = "Array<>".toList := by
    have hrows : view.rows (nesting.finite (.array [.array []])).val = [[]] := rfl
    refine (View.describe_of_empty ?_ ?_).trans (by decide)
    · rw [hrows]
      exact List.cons_ne_nil _ _
    · rw [hrows]
      exact List.forall_mem_singleton.2 rfl
  have hvalidate : Grammar.validate "Array<>" =
      .error (.atPosition (.unexpected '>') "Array<>".toList 6) := rfl
  refine ⟨fun v => ?_, nesting, hdescribe, ?_⟩
  · by_cases hword : IsWord isNameChar (Value.tupleView.typeName v)
    · simp [view, hword]
    · simp only [view, if_neg hword]
      decide
  · rw [hdescribe, String.ofList_toList, hvalidate]
    nofun

end DynTypes
