import DynTypes.Proofs.Description.Tree
/-!
# Matching a value against its description

In a host where every value is a member of its own type, and where the items of a collection that
have parts have equally many, every value matches its own description.
-/

namespace DynTypes

variable {V : Type} {view : View V}

/-- What makes a value match its own description: it is a member of its own type, and no item has
more parts than one that is matched part by part. -/
structure View.Matchable (registry : Registry V) (view : View V) (v : V) : Prop where
  member : Test.ofName registry (view.typeName v) v = .ok true
  length_le : ∀ items, view.items v = some items → ∀ parts, Item.parts parts ∈ items →
    ∀ row ∈ view.rows v, row.length ≤ parts.length

variable [RegexEngine]

section Depict

variable {registry : Registry V} (nesting : Nesting view) {v : V}

theorem exists_answer_depict (h : ∀ w, view.Inside w v → view.Matchable registry w) (u : V) :
    ∃ answer, (depict nesting v).accepts registry view u = .ok answer := by
  apply Alternative.exists_answer
  intro name hname
  obtain ⟨w, hw, rfl⟩ := exists_inside_of_mem_names nesting hname
  exact Registry.not_lacks_of_ofName (h w hw).member

/-- The slot at a place accepts the part at that place, since the description of the part is one of
its alternatives and the others have an answer too. -/
theorem slot_accepts_part (h : ∀ w, view.Inside w v → view.Matchable registry w)
    (hparts : ∀ part, view.IsPart part v →
      (depict nesting part).accepts registry view part = .ok true)
    {row : List V} (hrow : row ∈ view.rows v) {k : Nat} (hk : k < row.length) :
    ∃ hslot : k < (depict nesting v).slots.length,
      (depict nesting v).slots[k].accepts registry view row[k] = .ok true := by
  obtain ⟨slot, hget, hmem⟩ := (exists_slot_depict_iff nesting).2
    ⟨row, hrow, row[k], List.getElem?_eq_getElem hk, rfl⟩
  obtain ⟨hslot, rfl⟩ := List.getElem?_eq_some_iff.1 hget
  refine ⟨hslot, ?_⟩
  rw [TypeExpr.accepts_eq_acceptsAny]
  refine Alternative.acceptsAny_of_mem ?_ hmem (hparts row[k] ⟨row, hrow, List.getElem_mem hk⟩)
  intro a ha
  obtain ⟨part, hpart, rfl⟩ := exists_part_of_mem_slots (List.getElem_mem hslot) ha
  exact exists_answer_depict nesting (fun w hw => h w (hw.tail hpart)) row[k]

theorem length_slots_depict {items : List (Item V)} {parts : List V}
    (h : view.Matchable registry v) (hitems : view.items v = some items)
    (hparts : Item.parts parts ∈ items) : (depict nesting v).slots.length = parts.length := by
  have hrow : parts ∈ view.rows v := (View.mem_rows_iff hitems).2 ⟨_, hparts, rfl⟩
  rw [slots_depict, List.length_map]
  apply le_antisymm
  · apply forall_lt_iff_le.1
    intro k hk
    obtain ⟨row, hmem, hlength⟩ := lt_length_columns.1 hk
    exact hlength.trans_le (h.length_le items hitems parts hparts row hmem)
  · apply forall_lt_iff_le.1
    exact fun k hk => lt_length_columns.2 ⟨parts, hrow, hk⟩

theorem itemPasses_depict (h : ∀ w, view.Inside w v → view.Matchable registry w)
    (hparts : ∀ part, view.IsPart part v →
      (depict nesting part).accepts registry view part = .ok true)
    {items : List (Item V)} (hitems : view.items v = some items) {item : Item V}
    (hitem : item ∈ items) :
    Test.itemPasses ((depict nesting v).slots.map (TypeExpr.accepts registry view)) item =
      .ok true := by
  have hrow : item.toList ∈ view.rows v := (View.mem_rows_iff hitems).2 ⟨item, hitem, rfl⟩
  have haccepts {k : Nat} (hk : k < item.toList.length) :=
    slot_accepts_part nesting h hparts hrow hk
  cases item with
  | single u =>
      obtain ⟨hslot, hanswer⟩ := haccepts Nat.zero_lt_one
      rw [Test.itemPasses_single (by rwa [List.length_map]), List.getElem_map]
      exact hanswer
  | parts us =>
      rw [Test.itemPasses, List.length_map,
        if_pos (length_slots_depict nesting (h v .refl) hitems hitem).symm,
        Test.partsPass_eq_true_iff]
      intro p hp
      obtain ⟨k, hk, rfl⟩ := List.getElem_of_mem hp
      rw [List.length_zip, lt_min_iff] at hk
      obtain ⟨hslot, hanswer⟩ := haccepts hk.2
      rw [List.getElem_zip, List.getElem_map]
      exact hanswer

theorem accepts_depict (h : ∀ w, view.Inside w v → view.Matchable registry w) :
    (depict nesting v).accepts registry view v = .ok true := by
  induction v using nesting.wellFounded.induction with
  | _ v ih =>
    have hparts : ∀ part, view.IsPart part v →
        (depict nesting part).accepts registry view part = .ok true :=
      fun part hpart => ih part hpart fun w hw => h w (hw.tail hpart)
    have hmk : depict nesting v = .mk (view.typeName v) false (depict nesting v).slots none := by
      rw [depict_eq]
      rfl
    rw [hmk, Alternative.accepts_plain registry view (h v .refl).member]
    split
    · rfl
    · next hslots =>
      have hne : (depict nesting v).slots ≠ [] := fun hnil => hslots (List.isEmpty_iff.2 hnil)
      rw [slots_depict] at hne
      have hcolumns : columns (view.rows v) ≠ [] := fun hnil => hne (List.map_eq_nil_iff.2 hnil)
      obtain ⟨row, hrow, -⟩ := lt_length_columns.1 (List.length_pos_iff.2 hcolumns)
      obtain ⟨items, hitems, hsome⟩ := View.exists_items_of_mem_rows hrow
      exact Test.collection_eq_true_iff.2
        ⟨items, hitems, hsome, fun item hitem => itemPasses_depict nesting h hparts hitems hitem⟩

end Depict

end DynTypes
