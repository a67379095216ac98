import DynTypes.Cli.Run
import DynTypes.Proofs.Checking.Afresh
import DynTypes.Proofs.Description.SelfMatch
import DynTypes.Regex.Builtin
/-!
# Descriptions of dynamic values

The built-in types cover every dynamic value but the objects, whose classes are registered. As long
as the names of these are words and leave the built-in types alone, every value matches its own
description, and so does every value that is written in JSON.
-/

namespace DynTypes

open Outline (IsWord isNameChar)

/-! ## Registered classes -/

namespace TypeTable

/-- Registers some classes, one after the other. -/
def registerClasses (r : TypeTable) (classes : List String) : TypeTable :=
  classes.foldl registerClass r

variable {name : String} {classes : List String}

theorem resolve_registerClasses_of_not_mem (r : TypeTable) (h : name ∉ classes) :
    (r.registerClasses classes).resolve name = r.resolve name := by
  induction classes generalizing r with
  | nil => rfl
  | cons first rest ih =>
      rw [List.mem_cons, not_or] at h
      exact (ih (r.registerClass first) h.2).trans (Entries.find?_insert_of_ne h.1 _ r.types)

/-- Classes with names of their own leave the built-in types alone. -/
theorem resolve_builtin_registerClasses (h : ∀ name ∈ classes, name ∉ builtin.names)
    (hname : name ∈ builtin.names) :
    (builtin.registerClasses classes).resolve name = builtin.resolve name :=
  resolve_registerClasses_of_not_mem _ fun hmem => h name hmem hname

theorem exists_resolve_registerClasses (r : TypeTable) (h : name ∈ classes) :
    ∃ isMember, (r.registerClasses classes).resolve name = some isMember ∧
      ∀ methods, isMember (.object name methods) = true := by
  induction classes generalizing r with
  | nil => contradiction
  | cons first rest ih =>
      by_cases hrest : name ∈ rest
      · exact ih (r.registerClass first) hrest
      · obtain rfl : name = first := (List.mem_cons.1 h).resolve_right hrest
        have hkept := resolve_registerClasses_of_not_mem (r.registerClass name) hrest
        exact ⟨_, hkept.trans (Entries.find?_insert_self name _ r.types),
          fun _ => beq_self_eq_true name⟩

end TypeTable

/-! ## Values in their host -/

namespace Value

theorem mem_rows_array {items row : List Value} (h : row ∈ view.rows (array items)) :
    row.length = 1 := by
  obtain ⟨item, hitem, rfl⟩ := List.mem_map.1 h
  obtain ⟨v, -, rfl⟩ := List.mem_map.1 hitem
  rfl

theorem mem_rows_hash {pairs : List (Value × Value)} {row : List Value}
    (h : row ∈ view.rows (hash pairs)) : row.length = 2 := by
  obtain ⟨item, hitem, rfl⟩ := List.mem_map.1 h
  obtain ⟨pair, -, rfl⟩ := List.mem_map.1 hitem
  rfl

theorem ne_nil_of_mem_rows {v : Value} {row : List Value} (h : row ∈ view.rows v) : row ≠ [] := by
  apply List.length_pos_iff.1
  cases v with
  | array items => rw [mem_rows_array h]; decide
  | hash pairs => rw [mem_rows_hash h]; decide
  | _ => contradiction

theorem length_le_of_parts {v : Value} {items : List (Item Value)} (hitems : v.items = some items)
    {parts : List Value} (hparts : Item.parts parts ∈ items) {row : List Value}
    (hrow : row ∈ view.rows v) : row.length ≤ parts.length := by
  cases v with
  | array values =>
      cases hitems
      obtain ⟨v, -, hv⟩ := List.mem_map.1 hparts
      contradiction
  | hash pairs =>
      cases hitems
      obtain ⟨pair, -, hpair⟩ := List.mem_map.1 hparts
      cases hpair
      exact (mem_rows_hash hrow).le
  | _ => contradiction

theorem isPart_array {part : Value} {items : List Value} :
    view.IsPart part (array items) ↔ part ∈ items := by
  simp [View.IsPart, View.rows, view, Value.items, Item.toList]

theorem isPart_hash {part : Value} {pairs : List (Value × Value)} :
    view.IsPart part (hash pairs) ↔ ∃ pair ∈ pairs, part = pair.1 ∨ part = pair.2 := by
  simp [View.IsPart, View.rows, view, Value.items, Item.toList]

theorem inside_array {w : Value} {items : List Value} :
    view.Inside w (array items) ↔ array items = w ∨ ∃ item ∈ items, view.Inside w item := by
  simp only [View.inside_iff (v := array items), isPart_array, and_comm]

theorem inside_hash {w : Value} {pairs : List (Value × Value)} :
    view.Inside w (hash pairs) ↔
      hash pairs = w ∨ ∃ pair ∈ pairs, view.Inside w pair.1 ∨ view.Inside w pair.2 := by
  rw [View.inside_iff]
  constructor
  · rintro (h | ⟨part, hw, hpart⟩)
    · exact .inl h
    · obtain ⟨pair, hpair, rfl | rfl⟩ := isPart_hash.1 hpart
      · exact .inr ⟨pair, hpair, .inl hw⟩
      · exact .inr ⟨pair, hpair, .inr hw⟩
  · rintro (h | ⟨pair, hpair, hw | hw⟩)
    · exact .inl h
    · exact .inr ⟨pair.1, hw, isPart_hash.2 ⟨pair, hpair, .inl rfl⟩⟩
    · exact .inr ⟨pair.2, hw, isPart_hash.2 ⟨pair, hpair, .inr rfl⟩⟩

theorem inside_of_items {w v : Value} (h : v.items = none) : view.Inside w v ↔ v = w := by
  rw [View.inside_iff]
  have hnone : ∀ part, ¬ view.IsPart part v := fun part => View.not_isPart_of_items h
  simp [hnone]

/-- The names that objects may have for their classes: the name of everything, or a word (no name of
a definition is empty) that is registered and that no other type has. -/
def IsClass (classes : List String) (name : String) : Prop :=
  name = Alternative.anyName ∨
    IsWord isNameChar name ∧ name ∉ TypeTable.builtin.names ∧ name ≠ Alternative.booleanName ∧
      name ∈ classes

instance (classes : List String) (name : String) : Decidable (IsClass classes name) :=
  inferInstanceAs (Decidable (_ ∨ _ ∧ _ ∧ _ ∧ _))

theorem className_mem_builtin {v : Value} (h : ∀ name methods, v ≠ object name methods) :
    v.className ∈ TypeTable.builtin.names := by
  cases v with
  | object name methods => exact absurd rfl (h name methods)
  | bool value => cases value <;> simp [className, TypeTable.names, TypeTable.builtin]
  | _ => simp [className, TypeTable.names, TypeTable.builtin]

theorem isWord_of_mem_builtin : ∀ name ∈ TypeTable.builtin.names, IsWord isNameChar name := by
  decide

theorem ne_booleanName_of_mem_builtin :
    ∀ name ∈ TypeTable.builtin.names, name ≠ Alternative.booleanName := by
  decide

theorem exists_resolve_builtin {v : Value} (h : ∀ name methods, v ≠ object name methods) :
    ∃ isMember, TypeTable.builtin.resolve v.className = some isMember ∧ isMember v = true := by
  cases v with
  | object name methods => exact absurd rfl (h name methods)
  | bool value => cases value <;> exact ⟨_, rfl, rfl⟩
  | _ => exact ⟨_, rfl, rfl⟩

section Classes

variable {classes : List String} {v : Value}

theorem describable (h : ∀ name methods, v = object name methods → IsClass classes name) :
    view.Describable v where
  isWord_typeName := by
    by_cases hobject : ∃ name methods, v = object name methods
    · obtain ⟨name, methods, rfl⟩ := hobject
      rcases h name methods rfl with rfl | ⟨hword, -⟩
      · exact isWord_of_mem_builtin _ List.mem_cons_self
      · exact hword
    · exact isWord_of_mem_builtin _
        (className_mem_builtin fun name methods heq => hobject ⟨name, methods, heq⟩)
  exists_ne_nil := by
    intro hrows
    obtain ⟨row, hrow⟩ := List.exists_mem_of_ne_nil _ hrows
    exact ⟨row, hrow, ne_nil_of_mem_rows hrow⟩

theorem ofName_of_resolve {r : TypeTable} {name : String} {isMember : Value → Bool}
    (hname : name ≠ Alternative.booleanName) (hresolve : r.resolve name = some isMember)
    (hmember : isMember v = true) : Test.ofName r.toRegistry name v = .ok true :=
  (Test.ofName_of_resolve hname hresolve v).trans (congrArg Except.ok hmember)

theorem matchable (hclasses : ∀ name ∈ classes, name ∉ TypeTable.builtin.names)
    (h : ∀ name methods, v = object name methods → IsClass classes name) :
    view.Matchable (TypeTable.builtin.registerClasses classes).toRegistry v where
  member := by
    by_cases hobject : ∃ name methods, v = object name methods
    · obtain ⟨name, methods, rfl⟩ := hobject
      rcases h name methods rfl with rfl | ⟨-, -, hboolean, hmem⟩
      · exact ofName_of_resolve (ne_booleanName_of_mem_builtin _ List.mem_cons_self)
          (TypeTable.resolve_builtin_registerClasses hclasses List.mem_cons_self) rfl
      · obtain ⟨isMember, hresolve, hmember⟩ :=
          TypeTable.exists_resolve_registerClasses TypeTable.builtin hmem
        exact ofName_of_resolve hboolean hresolve (hmember methods)
    · have hplain : ∀ name methods, v ≠ object name methods :=
        fun name methods heq => hobject ⟨name, methods, heq⟩
      have hmem := className_mem_builtin hplain
      obtain ⟨isMember, hresolve, hmember⟩ := exists_resolve_builtin hplain
      exact ofName_of_resolve (ne_booleanName_of_mem_builtin _ hmem)
        ((TypeTable.resolve_builtin_registerClasses hclasses hmem).trans hresolve) hmember
  length_le := fun _ hitems _ hparts _ hrow => length_le_of_parts hitems hparts hrow

end Classes

/-! ## Values from JSON -/

theorem ofItems_eq_map (items : List (Json String Json.Number)) :
    ofItems items = items.map ofJson := by
  induction items with
  | nil => rfl
  | cons item rest ih => rw [ofItems, ih, List.map_cons]

theorem ofMembers_eq_map (members : List (String × Json String Json.Number)) :
    ofMembers members = members.map fun (key, value) => (str key, ofJson value) := by
  induction members with
  | nil => rfl
  | cons member rest ih =>
      obtain ⟨key, value⟩ := member
      rw [ofMembers, ih, List.map_cons]

theorem ofNumber_cases (n : Json.Number) :
    (∃ value, ofNumber n = int value) ∨ ∃ value, ofNumber n = float value := by
  cases n with
  | real x => exact .inr ⟨x, rfl⟩
  | int n =>
      rw [ofNumber]
      split
      · exact .inl ⟨_, rfl⟩
      · exact .inr ⟨_, rfl⟩

theorem ofText_cases (text : String) :
    (∃ name, ofText text = symbol name) ∨ ofText text = str text := by
  rw [ofText]
  split
  · exact .inl ⟨_, rfl⟩
  · exact .inr rfl

/-- The keys of tables are texts, also those that would be symbols elsewhere. -/
def IsFromJson (v : Value) : Prop :=
  (∃ tree, v = ofJson tree) ∨ ∃ key, v = str key

/-- A value from JSON has no parts, or it is a list or a table of values from JSON. -/
theorem IsFromJson.cases {v : Value} (h : IsFromJson v) :
    ((∀ name methods, v ≠ object name methods) ∧ v.items = none) ∨
      (∃ trees : List (Json String Json.Number), v = array (trees.map ofJson)) ∨
      ∃ members : List (String × Json String Json.Number),
        v = hash (members.map fun (key, value) => (str key, ofJson value)) := by
  rcases h with ⟨tree, rfl⟩ | ⟨key, rfl⟩
  · cases tree with
    | array trees => exact .inr (.inl ⟨trees, congrArg array (ofItems_eq_map trees)⟩)
    | object members => exact .inr (.inr ⟨members, congrArg hash (ofMembers_eq_map members)⟩)
    | number n =>
        rw [ofJson]
        rcases ofNumber_cases n with ⟨value, h⟩ | ⟨value, h⟩ <;> rw [h] <;>
          exact .inl ⟨nofun, rfl⟩
    | text text =>
        rw [ofJson]
        rcases ofText_cases text with ⟨name, h⟩ | h <;> rw [h] <;> exact .inl ⟨nofun, rfl⟩
    | null => exact .inl ⟨nofun, rfl⟩
    | bool value => exact .inl ⟨nofun, rfl⟩
  · exact .inl ⟨nofun, rfl⟩

theorem IsFromJson.of_isPart {part v : Value} (h : view.IsPart part v) (hv : IsFromJson v) :
    IsFromJson part := by
  rcases hv.cases with ⟨-, hnone⟩ | ⟨trees, rfl⟩ | ⟨members, rfl⟩
  · exact absurd h (View.not_isPart_of_items hnone)
  · obtain ⟨tree, -, rfl⟩ := List.mem_map.1 (isPart_array.1 h)
    exact .inl ⟨tree, rfl⟩
  · obtain ⟨pair, hpair, hpart⟩ := isPart_hash.1 h
    obtain ⟨⟨key, tree⟩, -, rfl⟩ := List.mem_map.1 hpair
    rcases hpart with rfl | rfl
    · exact .inr ⟨key, rfl⟩
    · exact .inl ⟨tree, rfl⟩

theorem IsFromJson.of_inside {w v : Value} (h : view.Inside w v) (hv : IsFromJson v) :
    IsFromJson w := by
  induction h using Relation.ReflTransGen.head_induction_on with
  | refl => exact hv
  | head hpart _ ih => exact ih.of_isPart hpart

theorem IsFromJson.ne_object {v : Value} (h : IsFromJson v) (name : String)
    (methods : List String) : v ≠ object name methods := by
  rcases h.cases with ⟨hne, -⟩ | ⟨trees, rfl⟩ | ⟨members, rfl⟩
  · exact hne name methods
  · nofun
  · nofun

end Value

section Describe

variable {classes : List String} {v : Value}

theorem describable_of_inside
    (h : ∀ name methods, Value.view.Inside (.object name methods) v →
      Value.IsClass classes name) :
    ∀ w, Value.view.Inside w v → Value.view.Describable w :=
  fun _ hw => Value.describable fun name methods heq => h name methods (heq ▸ hw)

theorem not_inside_object_of_read? [JsonReader] {document : String}
    (hread : Value.read? document = some v) (name : String) (methods : List String) :
    ¬ Value.view.Inside (.object name methods) v := by
  intro h
  obtain ⟨tree, -, rfl⟩ := Option.map_eq_some_iff.1 hread
  exact (Value.IsFromJson.of_inside h (.inl ⟨tree, rfl⟩)).ne_object name methods rfl

theorem isClass_of_read? [JsonReader] {document : String} (hread : Value.read? document = some v)
    (name : String) (methods : List String) (h : Value.view.Inside (.object name methods) v) :
    Value.IsClass [] name :=
  absurd h (not_inside_object_of_read? hread name methods)

end Describe

section

variable [RegexEngine]

/-! ## Values and their descriptions -/

section Describe

variable {classes : List String} {v : Value}

theorem accepts_depict_value (hclasses : ∀ name ∈ classes, name ∉ TypeTable.builtin.names)
    (h : ∀ name methods, Value.view.Inside (.object name methods) v →
      Value.IsClass classes name) :
    (TypeExpr.sum (depict Value.nesting v) []).accepts
      (TypeTable.builtin.registerClasses classes).toRegistry Value.view v = .ok true := by
  have haccepts := accepts_depict Value.nesting fun w hw =>
    Value.matchable hclasses fun name methods heq => h name methods (heq ▸ hw)
  rw [TypeExpr.accepts, Test.or_apply, haccepts]

theorem run_describe [JsonReader] {document : String} (hread : Value.read? document = some v) :
    Cli.run ["describe", "--", document] = .line 0 (describe Value.nesting v) := by
  have hcommand : Cli.run ["describe", "--", document] = Cli.describe document := rfl
  rw [hcommand, Cli.describe, Cli.withValue, hread]

/-- The program tells of a value no more than the answer and the description. -/
theorem run_check_eq [JsonReader] {definition document : String} {expr : TypeExpr}
    (hread : Value.read? document = some v) (hparse : TypeExpr.parse definition = .ok expr) :
    Cli.run ["check", "--", definition, document] =
      match expr.accepts TypeTable.builtin.toRegistry Value.view v with
      | .error error => .failure error.message
      | .ok true => .line 0 "match".toList
      | .ok false => .line 1 ("no match: value is ".toList ++ describe Value.nesting v) := by
  have hcommand : Cli.run ["check", "--", definition, document] = Cli.check definition document :=
    rfl
  have hanswer := (yields_acceptsDefinition TypeTable.builtin.toRegistry Value.view definition v
    { rules := {} } (Cache.faithful_fresh {})).1
  rw [acceptsAfresh_of_parse hparse] at hanswer
  rw [hcommand, Cli.check, Cli.withValue, hread]
  dsimp only
  generalize expr.accepts TypeTable.builtin.toRegistry Value.view v = answer at hanswer ⊢
  rcases answer with error | _ | _ <;> rw [hanswer]

theorem run_check [JsonReader] {definition document : String} {expr : TypeExpr}
    (hread : Value.read? document = some v) (hparse : TypeExpr.parse definition = .ok expr)
    (haccepts : expr.accepts TypeTable.builtin.toRegistry Value.view v = .ok true) :
    Cli.run ["check", "--", definition, document] = .line 0 "match".toList := by
  rw [run_check_eq hread hparse, haccepts]

end Describe

/-- Every value matches its own description, which is a definition that repeats no alternative and
is written the way it is read. In particular the line that the program prints as the description of
a value in JSON is a definition that the program then finds the value to match. -/
theorem value_matches_description [JsonReader] :
    (∀ (classes : List String) (v : Value),
      (∀ name ∈ classes, name ∉ TypeTable.builtin.names) →
      (∀ name methods, Value.view.Inside (.object name methods) v →
        Value.IsClass classes name) →
      Grammar.validate (String.ofList (describe Value.nesting v)) = .ok () ∧
      ∃ expr, TypeExpr.parse (String.ofList (describe Value.nesting v)) = .ok expr ∧
        toString expr = String.ofList (describe Value.nesting v) ∧
        (∀ s : TypeExpr, s.Within expr → s.alternatives.Nodup) ∧
        expr.accepts (TypeTable.builtin.registerClasses classes).toRegistry Value.view v =
          .ok true) ∧
    ∀ (document : String) (v : Value), Value.read? document = some v →
      Cli.run ["describe", "--", document] = .line 0 (describe Value.nesting v) ∧
      Cli.run ["check", "--", String.ofList (describe Value.nesting v), document] =
        .line 0 "match".toList := by
  constructor
  · intro classes v hclasses hobjects
    have hinside := describable_of_inside hobjects
    have hparse := parse_describe Value.nesting hinside
    exact ⟨TypeExpr.validate_of_parse hparse, _, hparse, toString_depict Value.nesting hinside,
      fun s hs => nodup_of_within_depict Value.nesting hs, accepts_depict_value hclasses hobjects⟩
  · intro document v hread
    have hobjects := isClass_of_read? hread
    have hparse := parse_describe Value.nesting (describable_of_inside hobjects)
    have haccepts := accepts_depict_value (List.forall_mem_nil _) hobjects
    exact ⟨run_describe hread, run_check hread hparse haccepts⟩

end

/-- A table that holds objects of a registered class and of no class in particular. -/
def Value.sample : Value :=
  .hash
    [(.symbol "a", .array [.object "Widget" ["draw"], .int 1, .object "Widget" []]),
      (.symbol "b", .object "Object" [])]

theorem value_matches_description_sample :
    (∃ expr, TypeExpr.parse (String.ofList (describe Value.nesting .sample)) = .ok expr ∧
      expr.accepts (TypeTable.builtin.registerClasses ["Widget"]).toRegistry Value.view .sample =
        .ok true) ∧
    Value.read? "[[true, null], []]" = some (.array [.array [.bool true, .nil], .array []]) ∧
    Cli.run ["check", "--",
      String.ofList (describe Value.nesting (.array [.array [.bool true, .nil], .array []])),
      "[[true, null], []]"] = .line 0 "match".toList := by
  have hobjects : ∀ name methods, Value.view.Inside (.object name methods) .sample →
      Value.IsClass ["Widget"] name := by
    intro name methods h
    simp only [Value.sample, Value.inside_hash, reduceCtorEq, List.mem_cons, List.not_mem_nil,
      or_false, exists_eq_or_imp, Value.inside_array, ↓existsAndEq, true_and, false_or] at h
    rcases h with (h | h | h | h) | h | h <;> cases (Value.inside_of_items rfl).1 h <;> decide
  obtain ⟨-, expr, hparse, -, -, haccepts⟩ :=
    value_matches_description.1 ["Widget"] .sample (by decide) hobjects
  have hread : Value.read? "[[true, null], []]" =
    some (.array [.array [.bool true, .nil], .array []]) := rfl
  exact ⟨⟨expr, hparse, haccepts⟩, hread, (value_matches_description.2 _ _ hread).2⟩

end DynTypes
