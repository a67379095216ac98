import DynTypes.Proofs.Matching.Names
import DynTypes.Proofs.Reading.RoundTrip
import DynTypes.View.Describe
import Mathlib.Data.List.Forall2
import Mathlib.Logic.Relation
/-!
# Descriptions as trees

The description of a value is the text of a type expression, `depict`, which is put together the way
the text is. Where names are words and items are not all empty, the two levels agree: equal texts
come from equal trees, so leaving out repeated texts leaves out repeated trees.
-/

namespace DynTypes

open Outline (IsWord isNameChar)

/-! ## Distinct entries -/

section EraseDups

variable {α β : Type} [BEq α] [LawfulBEq α] [BEq β] [LawfulBEq β]

theorem nodup_eraseDups (entries : List α) : entries.eraseDups.Nodup := by
  match entries with
  | [] => exact List.nodup_nil
  | a :: rest =>
    rw [List.eraseDups_cons, List.nodup_cons]
    refine ⟨fun hmem => ?_, nodup_eraseDups _⟩
    rw [List.mem_eraseDups] at hmem
    simp at hmem
termination_by entries.length
decreasing_by exact Nat.lt_succ_of_le (List.length_filter_le _ _)

theorem eraseDups_map {f : α → β} (entries : List α)
    (hf : ∀ a ∈ entries, ∀ b ∈ entries, f a = f b → a = b) :
    (entries.map f).eraseDups = entries.eraseDups.map f := by
  match entries with
  | [] => rfl
  | a :: rest =>
    have hkeep : (rest.map f).filter (fun b => !b == f a) =
        (rest.filter fun b => !b == a).map f := by
      rw [List.filter_map]
      congr 1
      apply List.filter_congr
      intro b hb
      by_cases heq : b = a
      · simp [heq]
      · have hne : f b ≠ f a := fun h =>
          heq (hf b (List.mem_cons_of_mem a hb) a List.mem_cons_self h)
        simp [heq, hne]
    rw [List.map_cons, List.eraseDups_cons, hkeep, List.eraseDups_cons, List.map_cons,
      eraseDups_map _ fun b hb c hc => hf b (List.mem_cons_of_mem a (List.mem_filter.1 hb).1) c
        (List.mem_cons_of_mem a (List.mem_filter.1 hc).1)]
termination_by entries.length
decreasing_by exact Nat.lt_succ_of_le (List.length_filter_le _ _)

end EraseDups

/-! ## Columns -/

section Columns

variable {α β : Type} {rows : List (List α)}

theorem lt_foldl_max {k n : Nat} {lengths : List Nat} :
    k < lengths.foldl max n ↔ k < n ∨ ∃ m ∈ lengths, k < m := by
  induction lengths generalizing n with
  | nil => simp
  | cons m lengths ih =>
      rw [List.foldl_cons, ih, lt_max_iff, or_assoc]
      simp

theorem lt_length_columns {k : Nat} : k < (columns rows).length ↔ ∃ row ∈ rows, k < row.length := by
  rw [columns, List.length_map, List.length_range, lt_foldl_max]
  simp

theorem getElem_columns {k : Nat} (h : k < (columns rows).length) :
    (columns rows)[k] = rows.filterMap (·[k]?) := by
  simp [columns]

theorem mem_columns_of_mem {row : List α} (hrow : row ∈ rows) {k : Nat} (hk : k < row.length) :
    ∃ h : k < (columns rows).length, row[k] ∈ (columns rows)[k] := by
  have h : k < (columns rows).length := lt_length_columns.2 ⟨row, hrow, hk⟩
  refine ⟨h, ?_⟩
  rw [getElem_columns h, List.mem_filterMap]
  exact ⟨row, hrow, List.getElem?_eq_getElem hk⟩

theorem ne_nil_of_mem_columns {column : List α} (h : column ∈ columns rows) : column ≠ [] := by
  obtain ⟨k, hk, rfl⟩ := List.getElem_of_mem h
  obtain ⟨row, hrow, hlength⟩ := lt_length_columns.1 hk
  exact List.ne_nil_of_mem (mem_columns_of_mem hrow hlength).2

theorem exists_row_of_mem_columns {column : List α} (h : column ∈ columns rows) {a : α}
    (ha : a ∈ column) : ∃ row ∈ rows, a ∈ row := by
  obtain ⟨k, hk, rfl⟩ := List.getElem_of_mem h
  rw [getElem_columns hk, List.mem_filterMap] at ha
  obtain ⟨row, hrow, hget⟩ := ha
  exact ⟨row, hrow, List.mem_of_getElem? hget⟩

theorem columns_map (f : α → β) :
    columns (rows.map (·.map f)) = (columns rows).map (·.map f) := by
  have hwidth : (rows.map (·.map f)).map List.length = rows.map List.length := by simp
  rw [columns, columns, hwidth, List.map_map]
  congr 1
  funext k
  rw [Function.comp_apply, List.filterMap_map, List.map_filterMap]
  simp

end Columns

/-! ## The parts of a value -/

section Parts

variable {V : Type} {view : View V}

/-- A value lies inside another, at any depth; every value lies inside itself. -/
def View.Inside (view : View V) : V → V → Prop :=
  Relation.ReflTransGen view.IsPart

theorem View.inside_iff {w v : V} :
    view.Inside w v ↔ v = w ∨ ∃ part, view.Inside w part ∧ view.IsPart part v :=
  Relation.ReflTransGen.cases_tail_iff _ _ _

theorem View.isPart_of_getElem? {v : V} {row : List V} (hrow : row ∈ view.rows v) {k : Nat}
    {part : V} (h : row[k]? = some part) : view.IsPart part v :=
  ⟨row, hrow, List.mem_of_getElem? h⟩

theorem View.not_isPart_of_items {part v : V} (h : view.items v = none) :
    ¬ view.IsPart part v := by
  rintro ⟨row, hrow, -⟩
  obtain ⟨items, hitems, -⟩ := exists_items_of_mem_rows hrow
  rw [h] at hitems
  contradiction

/-- What makes the text of a description a definition: the name of the type is a word, and some item
has parts if there are items. -/
structure View.Describable (view : View V) (v : V) : Prop where
  isWord_typeName : IsWord isNameChar (view.typeName v)
  exists_ne_nil : view.rows v ≠ [] → ∃ row ∈ view.rows v, row ≠ []

end Parts

variable [RegexEngine]

/-! ## Trees -/

/-- The sum of some alternatives without repetitions. A sum of none stands for no text. -/
def TypeExpr.ofDistinct (alternatives : List Alternative) : TypeExpr :=
  match alternatives.eraseDups with
  | [] => .sum .any []
  | first :: rest => .sum first rest

/-- The description of a collection from the name of its type and the descriptions of the parts of
its items. -/
def Alternative.ofItems (name : String) (items : List (List Alternative)) : Alternative :=
  .mk name false ((columns items).map TypeExpr.ofDistinct) none

namespace TypeExpr

theorem alternatives_ofDistinct {alternatives : List Alternative} (h : alternatives ≠ []) :
    (ofDistinct alternatives).alternatives = alternatives.eraseDups := by
  rw [ofDistinct]
  split
  · next hnil =>
    obtain ⟨a, rest, rfl⟩ := List.exists_cons_of_ne_nil h
    rw [List.eraseDups_cons] at hnil
    contradiction
  · next hcons => exact hcons.symm

theorem render_eq (e : TypeExpr) :
    e.render = ['|'].intercalate (e.alternatives.map Alternative.render) := by
  cases e
  rw [render, Alternative.renderAll_eq_map, alternatives, List.map_cons]

end TypeExpr

namespace Alternative

theorem toString_single (a : Alternative) :
    toString (TypeExpr.sum a []) = String.ofList a.render := by
  simp [toString, TypeExpr.render, List.intercalate_singleton]

theorem parse_render {a : Alternative} (h : a.WellFormed Literal.IsToken) :
    TypeExpr.parse (String.ofList a.render) = .ok (.sum a []) := by
  have hformed : (TypeExpr.sum a []).WellFormed Literal.IsToken := ⟨h, trivial⟩
  rw [← toString_single]
  exact TypeExpr.parse_toString hformed

theorem render_injective {a b : Alternative} (ha : a.WellFormed Literal.IsToken)
    (hb : b.WellFormed Literal.IsToken) (h : a.render = b.render) : a = b := by
  have hsame := (parse_render ha).symm.trans (h ▸ parse_render hb)
  cases hsame
  rfl

variable {name : String} {items : List (List Alternative)}

theorem alternatives_of_mem_slots {slot : TypeExpr} (h : slot ∈ (ofItems name items).slots) :
    ∃ column ∈ columns items, slot.alternatives = column.eraseDups := by
  obtain ⟨column, hcolumn, rfl⟩ := List.mem_map.1 h
  exact ⟨column, hcolumn, TypeExpr.alternatives_ofDistinct (ne_nil_of_mem_columns hcolumn)⟩

theorem exists_item_of_mem_slots {slot : TypeExpr} (h : slot ∈ (ofItems name items).slots)
    {a : Alternative} (ha : a ∈ slot.alternatives) : ∃ item ∈ items, a ∈ item := by
  obtain ⟨column, hcolumn, halternatives⟩ := alternatives_of_mem_slots h
  rw [halternatives, List.mem_eraseDups] at ha
  exact exists_row_of_mem_columns hcolumn ha

theorem wellFormed_ofItems (hname : IsWord isNameChar name)
    (h : ∀ item ∈ items, ∀ a ∈ item, a.WellFormed Literal.IsToken) :
    (ofItems name items).WellFormed Literal.IsToken := by
  refine ⟨hname, (TypeExpr.allWellFormed_iff _).2 fun slot hslot => ?_, fun _ h => nomatch h⟩
  have hslot : slot ∈ (ofItems name items).slots := hslot
  rw [TypeExpr.wellFormed_iff]
  intro a ha
  obtain ⟨item, hitem, hmem⟩ := exists_item_of_mem_slots hslot ha
  exact h item hitem a hmem

/-- On well-formed trees, which are known by their texts, it is the same to leave out repeated trees
and repeated texts. -/
theorem render_ofItems (name : String) (hne : ∃ item ∈ items, item ≠ [])
    (h : ∀ item ∈ items, ∀ a ∈ item, a.WellFormed Literal.IsToken) :
    (ofItems name items).render = describeItems name.toList (items.map (·.map render)) := by
  have hcolumns : columns items ≠ [] := by
    obtain ⟨item, hitem, hparts⟩ := hne
    apply List.length_pos_iff.1
    exact lt_length_columns.2 ⟨item, hitem, List.length_pos_iff.2 hparts⟩
  have hslots : ((columns items).map TypeExpr.ofDistinct).map TypeExpr.render =
      ((columns items).map (·.map render)).map fun parts => ['|'].intercalate parts.eraseDups := by
    rw [List.map_map, List.map_map]
    apply List.map_congr_left
    intro column hcolumn
    have hformed : ∀ a ∈ column, a.WellFormed Literal.IsToken := by
      intro a ha
      obtain ⟨item, hitem, hmem⟩ := exists_row_of_mem_columns hcolumn ha
      exact h item hitem a hmem
    have hdistinct := eraseDups_map column
      fun a ha b hb hab => render_injective (hformed a ha) (hformed b hb) hab
    rw [Function.comp_apply, Function.comp_apply, hdistinct, TypeExpr.render_eq,
      TypeExpr.alternatives_ofDistinct (ne_nil_of_mem_columns hcolumn)]
  rw [ofItems, render, TypeExpr.renderAll_eq_map, hslots, describeItems, columns_map]
  simp [hcolumns]

end Alternative

section Depict

variable {V : Type} {view : View V}

/-- The type expression whose text is the description of a finite value. -/
def View.depict (view : View V) (v : view.Finite) : Alternative :=
  .ofItems (view.typeName v.val) <|
    v.rows.attach.map fun ⟨row, hrow⟩ =>
      row.attach.map fun ⟨part, hpart⟩ =>
        have := Finite.isPart_of_mem_rows hrow hpart
        view.depict part
termination_by v

theorem View.depict_eq (v : view.Finite) :
    view.depict v = .ofItems (view.typeName v.val) (v.rows.map (·.map view.depict)) := by
  rw [depict]
  simp

/-- The same for a value of a host that has finite values only. -/
def depict (nesting : Nesting view) (v : V) : Alternative :=
  view.depict (nesting.finite v)

theorem depict_eq (nesting : Nesting view) (v : V) :
    depict nesting v = .ofItems (view.typeName v) ((view.rows v).map (·.map (depict nesting))) := by
  rw [depict, View.depict_eq, nesting.rows_finite, List.map_map]
  simp only [Function.comp_def, List.map_map]
  rfl

theorem slots_depict (nesting : Nesting view) (v : V) :
    (depict nesting v).slots =
      (columns (view.rows v)).map fun column => .ofDistinct (column.map (depict nesting)) := by
  rw [depict_eq, Alternative.ofItems, columns_map, List.map_map]
  rfl

theorem exists_part_of_mem_slots {nesting : Nesting view} {v : V} {slot : TypeExpr}
    (h : slot ∈ (depict nesting v).slots) {a : Alternative} (ha : a ∈ slot.alternatives) :
    ∃ part, view.IsPart part v ∧ a = depict nesting part := by
  rw [depict_eq] at h
  obtain ⟨row', hrow', hmem⟩ := Alternative.exists_item_of_mem_slots h ha
  obtain ⟨row, hrow, rfl⟩ := List.mem_map.1 hrow'
  obtain ⟨part, hpart, rfl⟩ := List.mem_map.1 hmem
  exact ⟨part, ⟨row, hrow, hpart⟩, rfl⟩

/-- A slot takes the descriptions of all parts that stand at its place. -/
theorem exists_slot_depict_iff (nesting : Nesting view) {v : V} {k : Nat} {a : Alternative} :
    (∃ slot, (depict nesting v).slots[k]? = some slot ∧ a ∈ slot.alternatives) ↔
      ∃ row ∈ view.rows v, ∃ part, row[k]? = some part ∧ depict nesting part = a := by
  have hcolumn {column : List V} (h : (columns (view.rows v))[k]? = some column) :
      a ∈ (TypeExpr.ofDistinct (column.map (depict nesting))).alternatives ↔
        ∃ row ∈ view.rows v, ∃ part, row[k]? = some part ∧ depict nesting part = a := by
    obtain ⟨hk, rfl⟩ := List.getElem?_eq_some_iff.1 h
    have hne := ne_nil_of_mem_columns (List.getElem_mem hk)
    rw [TypeExpr.alternatives_ofDistinct (by simpa using hne), List.mem_eraseDups,
      getElem_columns hk]
    simp only [List.mem_map, List.mem_filterMap]
    tauto
  rw [slots_depict]
  simp only [List.getElem?_map, Option.map_eq_some_iff, exists_exists_and_eq_and]
  constructor
  · rintro ⟨column, h, ha⟩
    exact (hcolumn h).1 ha
  · rintro ⟨row, hrow, part, hpart, rfl⟩
    obtain ⟨hk, -⟩ := List.getElem?_eq_some_iff.1 hpart
    have h := List.getElem?_eq_getElem (lt_length_columns.2 ⟨row, hrow, hk⟩)
    exact ⟨_, h, (hcolumn h).2 ⟨row, hrow, part, hpart, rfl⟩⟩

/-! ## Sums and names -/

/-- A sum lies inside an expression, at any depth; every sum lies inside itself. -/
inductive TypeExpr.Within (s : TypeExpr) : TypeExpr → Prop
  | self : Within s s
  | slot {e : TypeExpr} {a : Alternative} {slot : TypeExpr} (ha : a ∈ e.alternatives)
      (hslot : slot ∈ a.slots) (h : Within s slot) : Within s e

theorem nodup_of_within_slot (nesting : Nesting view) (v : V) :
    ∀ slot ∈ (depict nesting v).slots, ∀ s : TypeExpr, s.Within slot → s.alternatives.Nodup := by
  induction v using nesting.wellFounded.induction with
  | _ v ih =>
    intro slot hslot s hs
    cases hs with
    | self =>
        rw [depict_eq] at hslot
        obtain ⟨column, -, halternatives⟩ := Alternative.alternatives_of_mem_slots hslot
        rw [halternatives]
        exact nodup_eraseDups _
    | slot ha hinner hs =>
        obtain ⟨part, hpart, rfl⟩ := exists_part_of_mem_slots hslot ha
        exact ih part hpart _ hinner s hs

/-- No sum in the tree of a description repeats an alternative. -/
theorem nodup_of_within_depict (nesting : Nesting view) {v : V} {s : TypeExpr}
    (h : s.Within (.sum (depict nesting v) [])) : s.alternatives.Nodup := by
  cases h with
  | self => exact List.nodup_singleton _
  | slot ha hslot hs =>
      obtain rfl := List.mem_singleton.1 ha
      exact nodup_of_within_slot nesting v _ hslot s hs

/-- The names in the tree are those of the types of what lies inside the value. -/
theorem exists_inside_of_mem_names (nesting : Nesting view) {v : V} {name : String}
    (h : name ∈ (depict nesting v).names) : ∃ w, view.Inside w v ∧ name = view.typeName w := by
  induction v using nesting.wellFounded.induction with
  | _ v ih =>
    rcases Alternative.mem_names.1 h with hname | ⟨slot, hslot, a, ha, hmem⟩
    · rw [depict_eq] at hname
      exact ⟨v, .refl, hname⟩
    · obtain ⟨part, hpart, rfl⟩ := exists_part_of_mem_slots hslot ha
      obtain ⟨w, hw, hname⟩ := ih part hpart hmem
      exact ⟨w, hw.tail hpart, hname⟩

/-! ## The text of a tree -/

theorem View.depict_spec (v : view.Finite)
    (h : ∀ w, view.Inside w v.val → view.Describable w) :
    (view.depict v).WellFormed Literal.IsToken ∧ (view.depict v).render = view.describe v := by
  obtain ⟨v, hv⟩ := v
  induction hv with
  | intro v hacc ih =>
    have hdescribable := h v .refl
    have hparts {row : List view.Finite} (hrow : row ∈ Finite.rows ⟨v, .intro v hacc⟩)
        {part : view.Finite} (hpart : part ∈ row) : (view.depict part).WellFormed Literal.IsToken ∧
          (view.depict part).render = view.describe part := by
      have hinside := Finite.isPart_of_mem_rows hrow hpart
      exact ih part.val hinside fun w hw => h w (hw.tail hinside)
    have hformed : ∀ row ∈ (Finite.rows ⟨v, .intro v hacc⟩).map (·.map view.depict),
        ∀ a ∈ row, a.WellFormed Literal.IsToken := by
      simp only [List.forall_mem_map]
      exact fun row hrow part hpart => (hparts hrow hpart).1
    have hrows := @Finite.map_val_rows _ view ⟨v, .intro v hacc⟩
    rw [depict_eq]
    refine ⟨Alternative.wellFormed_ofItems hdescribable.isWord_typeName hformed, ?_⟩
    by_cases hnil : view.rows v = []
    · rw [hnil, List.map_eq_nil_iff] at hrows
      rw [describe_eq, if_pos hnil, hrows]
      simp [Alternative.ofItems, Alternative.render, columns]
    · obtain ⟨row, hrow, hne⟩ := hdescribable.exists_ne_nil hnil
      rw [← hrows, List.mem_map] at hrow
      obtain ⟨row, hrow, rfl⟩ := hrow
      have hne' : row.map view.depict ≠ [] :=
        List.map_eq_nil_iff.not.2 (List.map_eq_nil_iff.not.1 hne)
      rw [Alternative.render_ofItems _ ⟨_, List.mem_map_of_mem hrow, hne'⟩ hformed,
        describe_eq, if_neg hnil, List.map_map]
      congr 1
      apply List.map_congr_left
      intro row hrow
      rw [Function.comp_apply, List.map_map]
      apply List.map_congr_left
      exact fun part hpart => (hparts hrow hpart).2

theorem View.toString_depict (v : view.Finite)
    (h : ∀ w, view.Inside w v.val → view.Describable w) :
    toString (TypeExpr.sum (view.depict v) []) = String.ofList (view.describe v) := by
  rw [Alternative.toString_single, (depict_spec v h).2]

theorem View.parse_describe (v : view.Finite)
    (h : ∀ w, view.Inside w v.val → view.Describable w) :
    TypeExpr.parse (String.ofList (view.describe v)) = .ok (.sum (view.depict v) []) := by
  obtain ⟨hformed, hrender⟩ := depict_spec v h
  rw [← hrender]
  exact Alternative.parse_render hformed

theorem toString_depict (nesting : Nesting view) {v : V}
    (h : ∀ w, view.Inside w v → view.Describable w) :
    toString (TypeExpr.sum (depict nesting v) []) = String.ofList (describe nesting v) :=
  View.toString_depict (nesting.finite v) h

theorem parse_describe (nesting : Nesting view) {v : V}
    (h : ∀ w, view.Inside w v → view.Describable w) :
    TypeExpr.parse (String.ofList (describe nesting v)) = .ok (.sum (depict nesting v) []) :=
  View.parse_describe (nesting.finite v) h

end Depict

end DynTypes
