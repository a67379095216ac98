import DynTypes.Number.Binary64
/-!
# Dynamic values

A small model of the values of a scripting language: nothing, truth values, integers,
floating-point numbers, texts, symbols, lists, ordered tables and opaque objects that name their
class and the methods they add.
-/

namespace DynTypes

/-- A dynamic value. -/
inductive Value where
  | nil
  | bool (value : Bool)
  | int (value : Int64)
  | float (value : Binary64)
  | str (value : String)
  /-- A symbol, without its colon. -/
  | symbol (name : String)
  | array (items : List Value)
  /-- Keys with values, in order; keys may repeat. -/
  | hash (pairs : List (Value × Value))
  /-- An object of a class, with the methods that it adds to those of every object. -/
  | object (className : String) (methods : List String)

namespace Value

/-! ### Equality -/

mutual

/-- Whether two values are equal: of the same kind and equal in all parts, where numbers that are
none differ from themselves. -/
def beq : Value → Value → Bool
  | nil, nil => true
  | bool a, bool b => a == b
  | int a, int b => a == b
  | float a, float b => a == b
  | str a, str b => a == b
  | symbol a, symbol b => a == b
  | array a, array b => beqItems a b
  | hash a, hash b => beqPairs a b
  | object a ms, object b ns => a == b && ms == ns
  | _, _ => false

/-- Whether two lists have equal values at all places. -/
def beqItems : List Value → List Value → Bool
  | [], [] => true
  | a :: as, b :: bs => beq a b && beqItems as bs
  | _, _ => false

/-- Whether two tables have equal keys and values at all places. -/
def beqPairs : List (Value × Value) → List (Value × Value) → Bool
  | [], [] => true
  | (k, v) :: as, (l, w) :: bs => beq k l && beq v w && beqPairs as bs
  | _, _ => false

end

instance : BEq Value := ⟨beq⟩

/-! ### Classes and methods -/

def className : Value → String
  | nil => "NilClass"
  | bool true => "TrueClass"
  | bool false => "FalseClass"
  | int _ => "Integer"
  | float _ => "Float"
  | str _ => "String"
  | symbol _ => "Symbol"
  | array _ => "Array"
  | hash _ => "Hash"
  | object className _ => className

/-- The methods that every value responds to. -/
def commonMethods : List String :=
  ["to_s", "inspect", "class", "nil?", "respond_to?", "==", "hash"]

/-- The methods that a value responds to beyond the common ones. -/
def ownMethods : Value → List String
  | nil => ["to_a", "to_h", "to_i", "to_f", "to_r", "&", "|"]
  | bool _ => ["&", "|", "^", "!"]
  | int _ =>
    ["to_i", "to_f", "to_r", "to_int", "+", "-", "*", "/", "%", "<=>", "abs", "succ", "pred",
      "times", "even?", "odd?", "zero?"]
  | float _ =>
    ["to_i", "to_f", "to_r", "+", "-", "*", "/", "%", "<=>", "abs", "round", "floor", "ceil",
      "nan?", "zero?"]
  | str _ =>
    ["to_str", "to_i", "to_f", "to_r", "to_sym", "size", "length", "+", "*", "<=>", "upcase",
      "downcase", "chars", "each_char", "empty?", "include?", "start_with?", "end_with?"]
  | symbol _ =>
    ["to_sym", "to_proc", "size", "length", "<=>", "upcase", "downcase", "empty?"]
  | array _ =>
    ["to_a", "to_ary", "to_h", "size", "length", "count", "each", "map", "select", "first",
      "last", "empty?", "include?", "push", "<<", "[]"]
  | hash _ =>
    ["to_a", "to_h", "to_hash", "size", "length", "count", "each", "map", "select", "keys",
      "values", "fetch", "empty?", "key?", "[]"]
  | object _ methods => methods

def respondsTo (v : Value) (method : String) : Bool :=
  commonMethods.contains method || v.ownMethods.contains method

/-! ### Depth -/

mutual

/-- How deep values lie inside each other. -/
def depth : Value → Nat
  | array items => depthItems items + 1
  | hash pairs => depthPairs pairs + 1
  | _ => 0

def depthItems : List Value → Nat
  | [] => 0
  | item :: rest => max item.depth (depthItems rest)

def depthPairs : List (Value × Value) → Nat
  | [] => 0
  | (key, value) :: rest => max (max key.depth value.depth) (depthPairs rest)

end

theorem depth_le_depthItems {item : Value} {items : List Value} (h : item ∈ items) :
    item.depth ≤ depthItems items := by
  induction items with
  | nil => simp at h
  | cons first rest ih =>
    rw [depthItems]
    rcases List.mem_cons.1 h with rfl | h
    · omega
    · have := ih h
      omega

theorem depth_le_depthPairs {key value : Value} {pairs : List (Value × Value)}
    (h : (key, value) ∈ pairs) :
    key.depth ≤ depthPairs pairs ∧ value.depth ≤ depthPairs pairs := by
  induction pairs with
  | nil => simp at h
  | cons first rest ih =>
    obtain ⟨k, v⟩ := first
    rw [depthPairs]
    rcases List.mem_cons.1 h with heq | h
    · obtain ⟨rfl, rfl⟩ := Prod.mk.inj heq
      omega
    · have := ih h
      omega

end Value

end DynTypes
