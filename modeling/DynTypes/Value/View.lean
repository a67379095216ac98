import DynTypes.Value.Inspect
import DynTypes.View.Basic
/-!
# Views of dynamic values

How dynamic values show themselves to matching. The plain view shows a list within a list as one
item; the tuple view takes it apart.
-/

namespace DynTypes

namespace Value

/-- The items of a collection: the values of a list, and the keys with their values of a table. -/
def items : Value → Option (List (Item Value))
  | array items => some (items.map .single)
  | hash pairs => some (pairs.map fun (key, value) => .parts [key, value])
  | _ => none

/-- The items of a collection, where a list within a list is an item with parts. -/
def itemsWithTuples : Value → Option (List (Item Value))
  | array items =>
    some <| items.map fun item =>
      match item with
      | array parts => .parts parts
      | item => .single item
  | v => v.items

/-- The size of texts and symbols in characters, and of collections in items. -/
def size : Value → Option Nat
  | str text | symbol text => some text.length
  | array items => some items.length
  | hash pairs => some pairs.length
  | _ => none

def number : Value → Option Magnitude
  | int value => some (.int value)
  | float value => some (.real value)
  | _ => none

def text : Value → Option String
  | str value => some value
  | _ => none

def symbolName : Value → Option String
  | symbol name => some name
  | _ => none

def isNil : Value → Bool
  | nil => true
  | _ => false

def isBool : Value → Bool
  | bool _ => true
  | _ => false

end Value

/-- Shows dynamic values as they are. -/
def Value.view : View Value where
  isAbsent := Value.isNil
  items := Value.items
  size := Value.size
  number := Value.number
  text := Value.text
  render := Value.toText
  symbolName := Value.symbolName
  respondsTo := Value.respondsTo
  typeName := Value.className

/-- Shows dynamic values as they are, except that a list within a list is an item with parts. -/
def Value.tupleView : View Value :=
  { Value.view with items := Value.itemsWithTuples }

theorem Value.depth_lt_of_items {v : Value} {items : List (Item Value)} (h : v.items = some items)
    (item : Item Value) (hitem : item ∈ items) (part : Value) (hpart : part ∈ item.toList) :
    part.depth < v.depth := by
  cases v with
  | array values =>
    obtain rfl := Option.some.inj h
    obtain ⟨value, hvalue, rfl⟩ := List.mem_map.1 hitem
    obtain rfl := List.mem_singleton.1 hpart
    exact Nat.lt_succ_of_le (depth_le_depthItems hvalue)
  | hash pairs =>
    obtain rfl := Option.some.inj h
    obtain ⟨⟨key, value⟩, hpair, rfl⟩ := List.mem_map.1 hitem
    have hdepth := depth_le_depthPairs hpair
    simp only [Item.toList, List.mem_cons, List.not_mem_nil, or_false] at hpart
    rcases hpart with rfl | rfl
    · exact Nat.lt_succ_of_le hdepth.1
    · exact Nat.lt_succ_of_le hdepth.2
  | _ => simp [Value.items] at h

/-- Dynamic values are finite. -/
def Value.nesting : Nesting Value.view where
  depth := Value.depth
  depth_lt := fun h item hitem part hpart => Value.depth_lt_of_items h item hitem part hpart

/-- Dynamic values are finite, also with tuples as items. -/
def Value.tupleNesting : Nesting Value.tupleView where
  depth := Value.depth
  depth_lt := by
    intro v items h item hitem part hpart
    cases v with
    | array values =>
      obtain rfl := Option.some.inj h
      obtain ⟨value, hvalue, rfl⟩ := List.mem_map.1 hitem
      have hle := Value.depth_le_depthItems hvalue
      cases value with
      | array parts =>
        have hpart : part ∈ parts := hpart
        have := Value.depth_le_depthItems hpart
        simp only [Value.depth] at hle ⊢
        omega
      | _ =>
        obtain rfl := List.mem_singleton.1 hpart
        exact Nat.lt_succ_of_le hle
    | hash pairs =>
      have h : (Value.hash pairs).items = some items := h
      exact Value.depth_lt_of_items h item hitem part hpart
    | _ => simp [Value.tupleView, Value.itemsWithTuples, Value.items] at h

end DynTypes
