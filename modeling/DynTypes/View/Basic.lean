import DynTypes.Number.Binary64
/-!
# Views of values

Matching never looks into a value itself. What it needs to know comes from the program that holds
the values, its host: a registry knows the types by name, and a view shows the structure of a
value.
-/

namespace DynTypes

/-- A number as bounds are compared with it. -/
inductive Magnitude where
  | int (value : Int64)
  | real (value : Binary64)
deriving DecidableEq

/-- The order of a number and an integer bound. For a floating-point number the bound is first
rounded to one; NaN has no order. -/
def Magnitude.compareBound (n : Magnitude) (bound : Int64) : Option Ordering :=
  match n with
  | int value => some (compare value.toInt bound.toInt)
  | real value => value.compare (.ofInt bound.toInt)

/-- One item that a collection emits. -/
inductive Item (V : Type) where
  /-- A plain item, for the first slot. -/
  | single (value : V)
  /-- An item with parts, for one slot each. -/
  | parts (values : List V)
deriving DecidableEq

/-- The values that an item consists of. -/
def Item.toList {V : Type} : Item V → List V
  | single value => [value]
  | parts values => values

/-- Knows the types of a host by name. -/
structure Registry (V : Type) where
  /-- The test for membership in the type with a name, if the name is known. -/
  resolve : String → Option (V → Bool)
  isBoolean : V → Bool

/-- Shows the structure of the values of a host. -/
structure View (V : Type) where
  /-- Whether a value stands for no value. -/
  isAbsent : V → Bool
  /-- The items that a collection emits. -/
  items : V → Option (List (Item V))
  size : V → Option Nat
  number : V → Option Magnitude
  text : V → Option String
  /-- The plain text of a value. -/
  render : V → String
  /-- The name of a symbol, without its colon. -/
  symbolName : V → Option String
  respondsTo : V → String → Bool
  typeName : V → String

namespace View

variable {V : Type} (view : View V)

/-- The parts of the items that a collection emits, row by row. -/
def rows (v : V) : List (List V) :=
  ((view.items v).getD []).map Item.toList

/-- A value is a part of an item that a collection emits. -/
def IsPart (part v : V) : Prop :=
  ∃ row ∈ view.rows v, part ∈ row

/-- A value whose parts, and the parts of those, come to an end. -/
abbrev Finite : Type :=
  {v : V // Acc view.IsPart v}

variable {view}

theorem mem_rows_iff {v : V} {items : List (Item V)} (h : view.items v = some items)
    {row : List V} : row ∈ view.rows v ↔ ∃ item ∈ items, item.toList = row := by
  rw [rows, h, Option.getD_some, List.mem_map]

theorem exists_items_of_mem_rows {v : V} {row : List V} (hrow : row ∈ view.rows v) :
    ∃ items, view.items v = some items ∧ items ≠ [] := by
  rw [rows] at hrow
  cases hitems : view.items v with
  | none =>
    rw [hitems] at hrow
    contradiction
  | some items =>
    refine ⟨items, rfl, ?_⟩
    rintro rfl
    rw [hitems] at hrow
    contradiction

namespace Finite

/-- The rows of a finite value. Whatever stands in them is finite as well. -/
def rows (v : view.Finite) : List (List view.Finite) :=
  (view.rows v.val).pmap (fun row h => row.attachWith _ h)
    fun row hrow _ hpart => v.property.inv ⟨row, hrow, hpart⟩

theorem map_val_rows (v : view.Finite) : v.rows.map (·.map Subtype.val) = view.rows v.val := by
  simp [rows, List.map_pmap]

theorem isPart_of_mem_rows {v part : view.Finite} {row : List view.Finite} (hrow : row ∈ v.rows)
    (hpart : part ∈ row) : view.IsPart part.val v.val := by
  refine ⟨row.map Subtype.val, ?_, List.mem_map_of_mem hpart⟩
  rw [← v.map_val_rows]
  exact List.mem_map_of_mem hrow

end Finite

end View

/-- Evidence that all values of a host are finite: a depth that is greater than that of every part
of every item. -/
structure Nesting {V : Type} (view : View V) where
  /-- How deep items lie inside each other, at most. -/
  depth : V → Nat
  depth_lt : ∀ {v : V} {items : List (Item V)}, view.items v = some items →
    ∀ item ∈ items, ∀ part ∈ item.toList, depth part < depth v

namespace Nesting

variable {V : Type} {view : View V}

theorem depth_lt_of_isPart (nesting : Nesting view) {part v : V} (h : view.IsPart part v) :
    nesting.depth part < nesting.depth v := by
  obtain ⟨row, hrow, hpart⟩ := h
  obtain ⟨items, hitems, -⟩ := View.exists_items_of_mem_rows hrow
  obtain ⟨item, hitem, rfl⟩ := (View.mem_rows_iff hitems).1 hrow
  exact nesting.depth_lt hitems item hitem part hpart

theorem wellFounded (nesting : Nesting view) : WellFounded view.IsPart :=
  Subrelation.wf nesting.depth_lt_of_isPart (measure nesting.depth).wf

/-- A value of a host that has finite values only. -/
def finite (nesting : Nesting view) (v : V) : view.Finite :=
  ⟨v, nesting.wellFounded.apply v⟩

theorem rows_finite (nesting : Nesting view) (v : V) :
    (nesting.finite v).rows = (view.rows v).map (·.map nesting.finite) := by
  have hrow (row : List V) (h : ∀ part ∈ row, Acc view.IsPart part) :
      row.attachWith _ h = row.map nesting.finite := List.pmap_eq_map (f := nesting.finite) h
  simp [View.Finite.rows, hrow, finite]

end Nesting

end DynTypes
