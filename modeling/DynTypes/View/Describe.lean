import DynTypes.View.Basic
/-!
# Descriptions of values

The type of a value in the notation of definitions, for messages: the name of its type and, for a
collection with items, the distinct descriptions of their parts slot by slot, in the order in
which they are first seen.
-/

namespace DynTypes

/-- The columns of some rows: column `k` holds the entry at place `k` of every row that has one. -/
def columns {α : Type} (rows : List (List α)) : List (List α) :=
  (List.range ((rows.map List.length).foldl max 0)).map fun k => rows.filterMap (·[k]?)

/-- The description of a collection from the name of its type and the descriptions of the parts
of its items. -/
def describeItems (name : List Char) (items : List (List (List Char))) : List Char :=
  let slots := (columns items).map fun parts => ['|'].intercalate parts.eraseDups
  name ++ '<' :: [','].intercalate slots ++ ['>']

section Describe

variable {V : Type} {view : View V}

/-- Describes a finite value of a host. -/
def View.describe (view : View V) (v : view.Finite) : List Char :=
  let name := (view.typeName v.val).toList
  match view.items v.val with
  | none | some [] => name
  | some _ =>
    describeItems name <|
      v.rows.attach.map fun ⟨row, hrow⟩ =>
        row.attach.map fun ⟨part, hpart⟩ =>
          have := Finite.isPart_of_mem_rows hrow hpart
          view.describe part
termination_by v

theorem View.describe_eq (v : view.Finite) :
    view.describe v =
      if view.rows v.val = [] then (view.typeName v.val).toList
      else describeItems (view.typeName v.val).toList (v.rows.map (·.map view.describe)) := by
  rw [View.describe, View.rows]
  rcases view.items v.val with _ | _ | _ <;> simp

/-- Describes a value of a host that has finite values only. -/
def describe (nesting : Nesting view) (v : V) : List Char :=
  view.describe (nesting.finite v)

theorem describe_eq_rows (nesting : Nesting view) (v : V) :
    describe nesting v =
      if view.rows v = [] then (view.typeName v).toList
      else describeItems (view.typeName v).toList
        ((view.rows v).map (·.map (describe nesting))) := by
  rw [describe, View.describe_eq, nesting.rows_finite, List.map_map]
  simp only [Function.comp_def, List.map_map]
  rfl

end Describe

end DynTypes
