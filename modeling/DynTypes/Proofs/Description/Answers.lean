import DynTypes.Proofs.Description.Values
import DynTypes.Proofs.Matching.Meaning
import DynTypes.Regex.Builtin
/-!
# What a description tells

Where an expression has no constraints, it asks for names of types only: for that of the value and,
slot by slot, for those of its parts. These are the names that a description holds. So values with
one description get one answer, however their parts are repeated or paired.
-/

namespace DynTypes

section Hosts

variable {V : Type} {registry : Registry V} {view : View V}

/-- How many parts an item has that is matched part by part. -/
def Item.arity? : Item V → Option Nat
  | .single _ => none
  | .parts vs => some vs.length

theorem Item.fits_iff {facts : List (V → Prop)} {item : Item V} :
    item.Fits facts ↔ (∀ n ∈ item.arity?, n = facts.length) ∧
      ∀ p ∈ facts.zip item.toList, p.1 p.2 := by
  cases item with
  | single v => cases facts <;> simp [Fits, arity?, toList]
  | parts vs => simp [Fits, arity?, toList]

/-- Nothing but their parts tells the values apart. -/
structure View.Alike (registry : Registry V) (view : View V) (v w : V) : Prop where
  isAbsent : view.isAbsent v = view.isAbsent w
  hasMember : ∀ name, registry.HasMember name v ↔ registry.HasMember name w
  arity? : ∀ items items', view.items v = some items → view.items w = some items' →
    ∀ item ∈ items, ∀ item' ∈ items', item.arity? = item'.arity?

section Depict

variable (nesting : Nesting view) {v w : V}

theorem View.Alike.symm (h : view.Alike registry v w) : view.Alike registry w v where
  isAbsent := h.isAbsent.symm
  hasMember name := (h.hasMember name).symm
  arity? items items' hitems hitems' item hitem item' hitem' :=
    (h.arity? items' items hitems' hitems item' hitem' item hitem).symm

end Depict

end Hosts

/-! ## Dynamic values -/

namespace Value

/-- A value of a built-in class, with nothing in it. -/
def ofClass : String → Value
  | "TrueClass" => bool true
  | "FalseClass" => bool false
  | "Integer" => int 0
  | "Float" => float .nan
  | "String" => str ""
  | "Symbol" => symbol ""
  | "Array" => array []
  | "Hash" => hash []
  | _ => nil

/-- A question that the class of a value decides, unless the value is an object. -/
def AsksClass (question : Value → Bool) : Prop :=
  ∀ v, (∀ name methods, v ≠ object name methods) → question (ofClass v.className) = question v

theorem AsksClass.congr {question : Value → Bool} (h : AsksClass question) {v w : Value}
    (hv : ∀ name methods, v ≠ object name methods) (hw : ∀ name methods, w ≠ object name methods)
    (hclass : v.className = w.className) : question v = question w := by
  rw [← h v hv, hclass, h w hw]

theorem asksClass_isBool : AsksClass isBool := by
  intro v hv
  cases v with
  | object name methods => exact absurd rfl (hv name methods)
  | bool value => cases value <;> rfl
  | _ => rfl

theorem asksClass_builtin : ∀ entry ∈ TypeTable.builtin.types, AsksClass entry.2 := by
  intro entry hentry v hv
  have hall : TypeTable.builtin.types.map (·.2 (ofClass v.className)) =
      TypeTable.builtin.types.map (·.2 v) := by
    cases v with
    | object name methods => exact absurd rfl (hv name methods)
    | bool value => cases value <;> rfl
    | _ => rfl
  exact List.map_inj_left.1 hall entry hentry

theorem asksClass_isNil : AsksClass isNil :=
  asksClass_builtin ("NilClass", isNil) (by simp [TypeTable.builtin])

end Value

namespace TypeTable

open Value (AsksClass)

theorem asksClass_resolve_builtin {name : String} {isMember : Value → Bool}
    (h : builtin.resolve name = some isMember) : AsksClass isMember := by
  obtain ⟨front, back, htypes, -⟩ := List.lookup_eq_some_iff.1 h
  refine Value.asksClass_builtin (name, isMember) ?_
  rw [htypes]
  exact List.mem_append_cons_self

theorem asksClass_registerClass {r : TypeTable} {first : String}
    (hr : ∀ name isMember, r.resolve name = some isMember → AsksClass isMember) (name : String)
    (isMember : Value → Bool) (h : (r.registerClass first).resolve name = some isMember) :
    AsksClass isMember := by
  by_cases hname : name = first
  · subst hname
    rw [resolve, registerClass, register, Entries.find?_insert_self] at h
    obtain rfl := Option.some.inj h
    intro v hv
    cases v with
    | object name methods => exact absurd rfl (hv name methods)
    | bool value => cases value <;> rfl
    | _ => rfl
  · rw [resolve, registerClass, register, Entries.find?_insert_of_ne hname] at h
    exact hr name isMember h

theorem asksClass_registerClasses {r : TypeTable} (classes : List String)
    (hr : ∀ name isMember, r.resolve name = some isMember → AsksClass isMember) :
    ∀ name isMember, (r.registerClasses classes).resolve name = some isMember →
      AsksClass isMember := by
  induction classes generalizing r with
  | nil => exact hr
  | cons first rest ih => exact ih (asksClass_registerClass hr)

end TypeTable

namespace Value

variable {classes : List String} {v w : Value}

theorem arity?_of_mem_items {items : List (Item Value)} (hitems : v.items = some items)
    {item : Item Value} (hitem : item ∈ items) :
    item.arity? = if v.className = "Hash" then some 2 else none := by
  cases v with
  | array values =>
      cases hitems
      obtain ⟨value, -, rfl⟩ := List.mem_map.1 hitem
      rfl
  | hash pairs =>
      cases hitems
      obtain ⟨pair, -, rfl⟩ := List.mem_map.1 hitem
      rfl
  | _ => contradiction

theorem alike (hv : ∀ name methods, v ≠ object name methods)
    (hw : ∀ name methods, w ≠ object name methods) (h : v.className = w.className) :
    view.Alike (TypeTable.builtin.registerClasses classes).toRegistry v w where
  isAbsent := asksClass_isNil.congr hv hw h
  hasMember name := by
    rw [Registry.HasMember, Registry.HasMember]
    split
    · exact iff_of_eq (congrArg (· = true) (asksClass_isBool.congr hv hw h))
    · have hresolve (isMember : Value → Bool) :
          (TypeTable.builtin.registerClasses classes).toRegistry.resolve name = some isMember →
            isMember v = isMember w := fun hsome =>
        (TypeTable.asksClass_registerClasses classes
          (fun _ _ => TypeTable.asksClass_resolve_builtin) name isMember hsome).congr hv hw h
      constructor
      · rintro ⟨isMember, hsome, hmember⟩
        exact ⟨isMember, hsome, hresolve isMember hsome ▸ hmember⟩
      · rintro ⟨isMember, hsome, hmember⟩
        exact ⟨isMember, hsome, hresolve isMember hsome ▸ hmember⟩
  arity? items items' hitems hitems' item hitem item' hitem' := by
    rw [arity?_of_mem_items hitems hitem, arity?_of_mem_items hitems' hitem', h]

end Value

theorem Cli.Outcome.line_injective {code : Nat} {text text' : List Char}
    (h : Cli.Outcome.line code text = Cli.Outcome.line code text') : text = text' := by
  have houtput := congrArg (String.toList ∘ Cli.Outcome.output) h
  simpa [Cli.Outcome.line] using houtput

section

variable [RegexEngine]

/-! ## Expressions without constraints -/

namespace TypeExpr

theorem sizeOf_slot_lt {e slot : TypeExpr} {a : Alternative} (ha : a ∈ e.alternatives)
    (hslot : slot ∈ a.slots) : sizeOf slot < sizeOf e := by
  obtain ⟨first, rest⟩ := e
  obtain ⟨name, optional, slots, constraints⟩ := a
  have hslots : sizeOf slot < sizeOf slots := List.sizeOf_lt_of_mem hslot
  have halternatives := List.sizeOf_lt_of_mem ha
  simp only [alternatives, List.cons.sizeOf_spec, Alternative.mk.sizeOf_spec] at halternatives
  rw [sum.sizeOf_spec]
  omega

@[elab_as_elim]
theorem slots_induction {motive : TypeExpr → Prop}
    (slots : ∀ e : TypeExpr, (∀ a ∈ e.alternatives, ∀ slot ∈ a.slots, motive slot) → motive e)
    (e : TypeExpr) : motive e :=
  slots e fun a ha slot hslot =>
    have := sizeOf_slot_lt ha hslot
    slots_induction slots slot
termination_by sizeOf e

/-- No alternative has constraints, at any depth. -/
def Unconstrained (e : TypeExpr) : Prop :=
  ∀ s : TypeExpr, s.Within e → ∀ a ∈ s.alternatives, a.constraints = none

@[simp] theorem unconstrained_sum {first : Alternative} {rest : List Alternative} :
    (sum first rest).Unconstrained ↔
      ∀ a ∈ first :: rest, a.constraints = none ∧ ∀ slot ∈ a.slots, slot.Unconstrained := by
  constructor
  · intro h a ha
    exact ⟨h _ .self a ha, fun slot hslot s hs => h s (.slot ha hslot hs)⟩
  · intro h s hs
    cases hs with
    | self => exact fun a ha => (h a ha).1
    | slot ha hslot hs => exact (h _ ha).2 _ hslot s hs

end TypeExpr

/-! ## Values that are described alike -/

section Hosts

variable {V : Type} {registry : Registry V} {view : View V}

section Depict

variable (nesting : Nesting view) {v w : V}

/-- Each part of the one value has a partner in the other, at the same place of some item. -/
theorem exists_partner (h : depict nesting v = depict nesting w) {row : List V}
    (hrow : row ∈ view.rows w) {k : Nat} {part : V} (hpart : row[k]? = some part) :
    ∃ row' ∈ view.rows v, ∃ part', row'[k]? = some part' ∧
      depict nesting part' = depict nesting part := by
  rw [← exists_slot_depict_iff nesting, h, exists_slot_depict_iff nesting]
  exact ⟨row, hrow, part, hpart, rfl⟩

theorem exists_items_of_depict_eq (hdescribable : view.Describable v)
    (h : depict nesting v = depict nesting w) {items : List (Item V)}
    (hitems : view.items v = some items) (hne : items ≠ []) :
    ∃ items', view.items w = some items' ∧ items' ≠ [] := by
  obtain ⟨item, hitem⟩ := List.exists_mem_of_ne_nil items hne
  have hrows : view.rows v ≠ [] :=
    List.ne_nil_of_mem ((View.mem_rows_iff hitems).2 ⟨item, hitem, rfl⟩)
  obtain ⟨row, hrow, hparts⟩ := hdescribable.exists_ne_nil hrows
  have hpart := List.getElem?_eq_getElem (List.length_pos_iff.2 hparts)
  obtain ⟨row', hrow', -⟩ := exists_partner nesting h.symm hrow hpart
  exact View.exists_items_of_mem_rows hrow'

/-- If parts with one description are not told apart, then neither are the values. -/
theorem itemsFit_of_depict_eq {facts : List (V → Prop)} (halike : view.Alike registry v w)
    (hdescribable : view.Describable v) (hdepict : depict nesting v = depict nesting w)
    (hfacts : ∀ fact ∈ facts, ∀ part part', view.IsPart part v → view.IsPart part' w →
      depict nesting part = depict nesting part' → fact part → fact part')
    (h : view.ItemsFit facts v) : view.ItemsFit facts w := by
  obtain ⟨items, hitems, hne, hfits⟩ := h
  obtain ⟨items', hitems', hne'⟩ :=
    exists_items_of_depict_eq nesting hdescribable hdepict hitems hne
  refine ⟨items', hitems', hne', fun item' hitem' => ?_⟩
  rw [Item.fits_iff]
  constructor
  · obtain ⟨item, hitem⟩ := List.exists_mem_of_ne_nil items hne
    rw [← halike.arity? items items' hitems hitems' item hitem item' hitem']
    exact (Item.fits_iff.1 (hfits item hitem)).1
  · rintro ⟨fact, part'⟩ hmem
    obtain ⟨k, hk⟩ := List.mem_iff_getElem?.1 hmem
    obtain ⟨hfact, hpart'⟩ := List.getElem?_zip_eq_some.1 hk
    have hrow' := (View.mem_rows_iff hitems').2 ⟨item', hitem', rfl⟩
    obtain ⟨row, hrow, part, hpart, hsame⟩ := exists_partner nesting hdepict hrow' hpart'
    obtain ⟨partner, hpartner, rfl⟩ := (View.mem_rows_iff hitems).1 hrow
    have hholds : fact part := (Item.fits_iff.1 (hfits partner hpartner)).2 (fact, part)
      (List.mem_of_getElem? (List.getElem?_zip_eq_some.2 ⟨hfact, hpart⟩))
    exact hfacts fact (List.mem_of_getElem? hfact) part part'
      (View.isPart_of_getElem? hrow hpart) (View.isPart_of_getElem? hrow' hpart') hsame hholds

theorem typeName_eq_of_depict_eq (h : depict nesting v = depict nesting w) :
    view.typeName v = view.typeName w := by
  have hname := congrArg Alternative.name h
  rwa [depict_eq, depict_eq] at hname

theorem admits_of_depict_eq {e : TypeExpr} (he : e.Unconstrained)
    (hdescribable : ∀ u, view.Inside u v → view.Describable u)
    (halike : ∀ u u', view.Inside u v → view.Inside u' w → view.typeName u = view.typeName u' →
      view.Alike registry u u')
    (hdepict : depict nesting v = depict nesting w) (h : e.Admits registry view v) :
    e.Admits registry view w := by
  induction e using TypeExpr.slots_induction generalizing v w with
  | slots e ih =>
    have hself := halike v w .refl .refl (typeName_eq_of_depict_eq nesting hdepict)
    obtain ⟨a, ha, hadmits⟩ := TypeExpr.admits_iff.1 h
    refine TypeExpr.admits_iff.2 ⟨a, ha, ?_⟩
    obtain ⟨first, rest⟩ := e
    obtain ⟨hconstraints, hslots⟩ := TypeExpr.unconstrained_sum.1 he a ha
    obtain ⟨name, optional, slots, constraints⟩ := a
    obtain rfl : constraints = none := hconstraints
    rw [Alternative.admits_iff] at hadmits ⊢
    rcases hadmits with habsent | ⟨hmember, -, hfits⟩
    · exact .inl (hself.isAbsent ▸ habsent)
    · refine .inr ⟨(hself.hasMember name).1 hmember, rfl, hfits.imp_right fun hfits => ?_⟩
      refine itemsFit_of_depict_eq nesting hself (hdescribable v .refl) hdepict ?_ hfits
      rintro fact hfact part part' hpart hpart' hsame hholds
      obtain ⟨slot, hslot, rfl⟩ := List.mem_map.1 hfact
      exact ih _ ha slot hslot (hslots slot hslot)
        (fun u hu => hdescribable u (hu.tail hpart))
        (fun u u' hu hu' => halike u u' (hu.tail hpart) (hu'.tail hpart')) hsame hholds

theorem accepts_eq_of_describe_eq {e : TypeExpr} (he : e.Unconstrained)
    (hnames : ∀ name ∈ e.names, ¬ registry.Lacks name)
    (hv : ∀ u, view.Inside u v → view.Describable u)
    (hw : ∀ u, view.Inside u w → view.Describable u)
    (halike : ∀ u u', view.Inside u v → view.Inside u' w → view.typeName u = view.typeName u' →
      view.Alike registry u u')
    (h : describe nesting v = describe nesting w) :
    e.accepts registry view v = e.accepts registry view w := by
  -- one text is read as one tree
  have hparse := parse_describe nesting hv
  rw [h, parse_describe nesting hw] at hparse
  obtain ⟨hdepict, -⟩ := TypeExpr.sum.inj (Except.ok.inj hparse)
  have hadmits : e.Admits registry view v ↔ e.Admits registry view w :=
    ⟨admits_of_depict_eq nesting he hv halike hdepict.symm,
      admits_of_depict_eq nesting he hw
        (fun u u' hu hu' hname => (halike u' u hu' hu hname.symm).symm) hdepict⟩
  obtain ⟨answer, hanswer, hright⟩ := TypeExpr.exists_right_answer hnames v
  obtain ⟨answer', hanswer', hright'⟩ := TypeExpr.exists_right_answer hnames w
  rw [hanswer, hanswer', Bool.eq_iff_iff.2 (hright.trans (hadmits.trans hright'.symm))]

end Depict

end Hosts

namespace Value

variable {classes : List String} {v w : Value}

theorem accepts_eq_of_describe_eq {e : TypeExpr}
    (hv : ∀ name methods, ¬ view.Inside (.object name methods) v)
    (hw : ∀ name methods, ¬ view.Inside (.object name methods) w)
    (hdescribe : describe nesting v = describe nesting w) (he : e.Unconstrained)
    (hresolve : ∀ name ∈ e.names, name ≠ Alternative.booleanName →
      ((TypeTable.builtin.registerClasses classes).resolve name).isSome) :
    e.accepts (TypeTable.builtin.registerClasses classes).toRegistry view v =
      e.accepts (TypeTable.builtin.registerClasses classes).toRegistry view w := by
  have hplain {u x : Value} (h : ∀ name methods, ¬ view.Inside (.object name methods) u)
      (hx : view.Inside x u) (name : String) (methods : List String) : x ≠ object name methods :=
    fun heq => h name methods (heq ▸ hx)
  have hdescribable {u : Value} (h : ∀ name methods, ¬ view.Inside (.object name methods) u) :
      ∀ x, view.Inside x u → view.Describable x :=
    @describable_of_inside [] u fun name methods hin => absurd hin (h name methods)
  exact DynTypes.accepts_eq_of_describe_eq nesting he
    (fun name hname => Registry.not_lacks_iff.2 (hresolve name hname)) (hdescribable hv)
    (hdescribable hw) (fun u x hu hx hname => alike (hplain hv hu) (hplain hw hx) hname) hdescribe

end Value

/-! ## The program -/

theorem run_check_congr [JsonReader] {definition document document' : String} {v w : Value}
    {e : TypeExpr} (hread : Value.read? document = some v)
    (hread' : Value.read? document' = some w)
    (hparse : TypeExpr.parse definition = .ok e)
    (haccepts : e.accepts TypeTable.builtin.toRegistry Value.view v =
      e.accepts TypeTable.builtin.toRegistry Value.view w)
    (hdescribe : describe Value.nesting v = describe Value.nesting w) :
    Cli.run ["check", "--", definition, document] =
      Cli.run ["check", "--", definition, document'] := by
  rw [run_check_eq hread hparse, run_check_eq hread' hparse, haccepts, hdescribe]

/-- Values without objects that have one description get the same answer from every expression that
has no constraints and whose names are known. In particular the program makes no difference between
documents that it describes alike. -/
theorem description_determines_answers [JsonReader] :
    (∀ (classes : List String) (v w : Value) (e : TypeExpr),
      (∀ name methods, ¬ Value.view.Inside (.object name methods) v) →
      (∀ name methods, ¬ Value.view.Inside (.object name methods) w) →
      describe Value.nesting v = describe Value.nesting w → e.Unconstrained →
      (∀ name ∈ e.names, name ≠ Alternative.booleanName →
        ((TypeTable.builtin.registerClasses classes).resolve name).isSome) →
      e.accepts (TypeTable.builtin.registerClasses classes).toRegistry Value.view v =
        e.accepts (TypeTable.builtin.registerClasses classes).toRegistry Value.view w) ∧
    ∀ (document document' definition : String) (v w : Value) (e : TypeExpr),
      Value.read? document = some v → Value.read? document' = some w →
      Cli.run ["describe", "--", document] = Cli.run ["describe", "--", document'] →
      TypeExpr.parse definition = .ok e → e.Unconstrained →
      (∀ name ∈ e.names, name ≠ Alternative.booleanName →
        (TypeTable.builtin.resolve name).isSome) →
      Cli.run ["check", "--", definition, document] =
        Cli.run ["check", "--", definition, document'] := by
  constructor
  · intro classes v w e hv hw hdescribe he hresolve
    exact Value.accepts_eq_of_describe_eq hv hw hdescribe he hresolve
  · intro document document' definition v w e hread hread' hlines hparse he hresolve
    rw [run_describe hread, run_describe hread'] at hlines
    have hdescribe := Cli.Outcome.line_injective hlines
    have haccepts := @Value.accepts_eq_of_describe_eq _ [] v w e (not_inside_object_of_read? hread)
      (not_inside_object_of_read? hread') hdescribe he hresolve
    exact run_check_congr hread hread' hparse haccepts hdescribe

end

/-- Two tables that pair keys of the same types with other values, and two documents that repeat
other items. -/
theorem description_determines_answers_pairing :
    let v : Value := .hash [(.symbol "a", .int 1), (.str "k", .nil)]
    let w : Value := .hash [(.symbol "b", .int 2), (.str "l", .int 3), (.symbol "c", .nil)]
    let key : TypeExpr := .sum (.mk "Widget" false [] none)
      [.mk "Symbol" false [] none, .mk "String" false [] none]
    let e : TypeExpr :=
      .sum (.mk "Hash" false [key, .sum (.mk "Integer" true [] none) []] none) []
    let registry := (TypeTable.builtin.registerClasses ["Widget"]).toRegistry
    describe Value.nesting v = describe Value.nesting w ∧ e.Unconstrained ∧
      e.accepts registry Value.view v = e.accepts registry Value.view w ∧
      Cli.run ["describe", "--", "[true,null]"] =
        Cli.run ["describe", "--", "[true,true,null]"] ∧
      Cli.run ["check", "--", "Array<Boolean>", "[true,null]"] =
        Cli.run ["check", "--", "Array<Boolean>", "[true,true,null]"] := by
  intro v w key e registry
  have hv : ∀ name methods, ¬ Value.view.Inside (.object name methods) v := by
    intro name methods h
    simp only [v, Value.inside_hash, reduceCtorEq, List.mem_cons, List.not_mem_nil, or_false,
      exists_eq_or_imp, ↓existsAndEq, true_and, false_or] at h
    rcases h with (h | h) | h | h <;> cases (Value.inside_of_items rfl).1 h
  have hw : ∀ name methods, ¬ Value.view.Inside (.object name methods) w := by
    intro name methods h
    simp only [w, Value.inside_hash, reduceCtorEq, List.mem_cons, List.not_mem_nil, or_false,
      exists_eq_or_imp, ↓existsAndEq, true_and, false_or] at h
    rcases h with (h | h) | (h | h) | h | h <;> cases (Value.inside_of_items rfl).1 h
  have hleaf (u : Value) (h : Value.view.items u = none) :
      describe Value.nesting u = u.className.toList := by
    rw [describe_eq_rows, View.rows, h]
    exact if_pos rfl
  have hdescribe : describe Value.nesting v = describe Value.nesting w := by
    rw [describe_eq_rows, describe_eq_rows,
      show Value.view.rows v = [[.symbol "a", .int 1], [.str "k", .nil]] from rfl,
      show Value.view.rows w = [[.symbol "b", .int 2], [.str "l", .int 3], [.symbol "c", .nil]]
        from rfl]
    simp only [List.map_cons, List.map_nil, hleaf (.symbol _) rfl, hleaf (.int _) rfl,
      hleaf (.str _) rfl, hleaf .nil rfl]
    decide +kernel
  have he : e.Unconstrained := by
    simp [e, key, Alternative.constraints, Alternative.slots]
  have hread : Value.read? "[true,null]" = some (.array [.bool true, .nil]) := rfl
  have hread' : Value.read? "[true,true,null]" =
    some (.array [.bool true, .bool true, .nil]) := rfl
  have hsame : describe Value.nesting (.array [.bool true, .nil]) =
      describe Value.nesting (.array [.bool true, .bool true, .nil]) := by
    rw [describe_eq_rows, describe_eq_rows,
      show Value.view.rows (.array [.bool true, .nil]) = [[.bool true], [.nil]] from rfl,
      show Value.view.rows (.array [.bool true, .bool true, .nil]) =
        [[.bool true], [.bool true], [.nil]] from rfl]
    simp only [List.map_cons, List.map_nil, hleaf (.bool _) rfl, hleaf .nil rfl]
    decide +kernel
  have hlines : Cli.run ["describe", "--", "[true,null]"] =
      Cli.run ["describe", "--", "[true,true,null]"] := by
    rw [run_describe hread, run_describe hread', hsame]
  have hparse : TypeExpr.parse "Array<Boolean>" =
      .ok (.sum (.mk "Array" false [.sum (.mk "Boolean" false [] none) []] none) []) := by
    decide +kernel
  refine ⟨hdescribe, he, ?_, hlines, ?_⟩
  · exact description_determines_answers.1 ["Widget"] v w e hv hw hdescribe he (by decide +kernel)
  · exact description_determines_answers.2 _ _ _ _ _ _ hread hread' hlines hparse
      (by simp [Alternative.constraints, Alternative.slots]) (by decide +kernel)

end DynTypes
