import DynTypes.Proofs.Reading.Parse
/-!
# Well-formed trees

Not every tree is what some definition means: a name with a bar in it could not be written. A tree
is well formed if each of its texts is one that a definition can hold. That there is a first
alternative, that constraints are given with at least one of them, that their keys differ and that
patterns compile is part of the types already.
-/

namespace DynTypes

open Outline

/-- The body and the flags of a regular expression, as they are written. -/
structure IsRegex (body flags : List Char) : Prop where
  units_body : Units '/' body
  body_ne_nil : body ≠ []
  flags_subset : ∀ c ∈ flags, c ∈ literalFlags

/-- A token literal is a word. Whatever else is not in double quotes is kept as it is written, and
so a regular expression in the place of a literal is a token too. -/
def Literal.IsToken (value : String) : Prop :=
  IsWord isTokenChar value ∨
    ∃ body flags, value.toList = '/' :: body ++ '/' :: flags ∧ IsRegex body flags

theorem Literal.isToken_colon {chars : List Char} (hchars : ∀ c ∈ chars, isTokenChar c = true) :
    Literal.IsToken (String.ofList (':' :: chars)) := by
  refine .inl ⟨?_, ?_⟩
  · rw [String.toList_ofList]
    exact List.cons_ne_nil _ _
  · rw [String.toList_ofList]
    intro c hc
    obtain rfl | hc := List.mem_cons.1 hc
    · decide
    · exact hchars c hc

section WellFormed

variable (isToken : String → Prop)

/-- Any text can stand between quotes. -/
def Literal.WellFormed : Literal → Prop
  | .text _ => True
  | .token value => isToken value

end WellFormed

/-! ## What values are read as -/

/-- The slash that ends the body is the last one, since no flag is a slash. -/
theorem Pattern.cutLastSlash?_append {body flags : List Char} (hflags : '/' ∉ flags) :
    Pattern.cutLastSlash? (body ++ '/' :: flags) = some (body, flags) := by
  have hnone : Pattern.cutLastSlash? flags = none := by
    induction flags with
    | nil => rfl
    | cons c flags ih =>
        have hc : ¬ c = '/' := fun h => hflags (h ▸ List.mem_cons_self)
        rw [Pattern.cutLastSlash?, ih fun h => hflags (List.mem_cons_of_mem c h)]
        exact if_neg hc
  induction body with
  | nil =>
      rw [List.nil_append, Pattern.cutLastSlash?, hnone]
      rfl
  | cons c body ih => rw [List.cons_append, Pattern.cutLastSlash?, ih]

theorem Pattern.eq_of_cutLastSlash? {text before behind : List Char}
    (h : cutLastSlash? text = some (before, behind)) : text = before ++ '/' :: behind := by
  induction text generalizing before with
  | nil => contradiction
  | cons c text ih =>
      rw [cutLastSlash?] at h
      split at h
      · next front back hcut =>
        cases h
        rw [ih hcut, List.cons_append]
      · split at h
        · next hslash =>
          cases h
          rw [hslash, List.nil_append]
        · contradiction

theorem Pattern.eq_of_cutLiteral? {text body flags : List Char}
    (h : cutLiteral? text = some (body, flags)) :
    text = '/' :: body ++ '/' :: flags ∧ ∀ c ∈ flags, c ∈ literalFlags := by
  unfold cutLiteral? at h
  split at h
  · next rest =>
    obtain ⟨hcut, hflags⟩ := Option.filter_eq_some_iff.1 h
    refine ⟨?_, fun c hc => ?_⟩
    · rw [eq_of_cutLastSlash? hcut, List.cons_append]
    · exact List.contains_iff_mem.1 (List.all_eq_true.1 hflags c hc)
  · contradiction

theorem Pattern.cutLiteral?_regex {body flags : List Char} (h : IsRegex body flags) :
    Pattern.cutLiteral? ('/' :: body ++ '/' :: flags) = some (body, flags) := by
  have hslash : '/' ∉ flags := fun hmem => absurd (h.flags_subset '/' hmem) (by decide)
  have hall : flags.all literalFlags.contains = true := by
    rw [List.all_eq_true]
    intro c hc
    exact List.contains_iff_mem.2 (h.flags_subset c hc)
  rw [List.cons_append, Pattern.cutLiteral?, Pattern.cutLastSlash?_append hslash]
  simp [hall]

theorem Literal.parse_of_head {text : List Char} (h : ∀ c ∈ text.head?, c ≠ '"') :
    Literal.parse (String.ofList text) = .token (String.ofList text) := by
  have hunquote : Literal.unquote? text = none := by
    unfold Literal.unquote?
    split
    · exact absurd rfl (h '"' rfl)
    · rfl
  rw [Literal.parse, String.toList_ofList, hunquote]

theorem Literal.parse_quoted (body : List Char) :
    Literal.parse (String.ofList ('"' :: body ++ ['"'])) =
      .text (String.ofList (Literal.unescape body)) := by
  have hunquote : Literal.unquote? ('"' :: body ++ ['"']) = some body := by
    rw [List.cons_append, Literal.unquote?, List.getLast?_concat, if_pos rfl,
      List.dropLast_concat]
  rw [Literal.parse, String.toList_ofList, hunquote]

theorem Outline.Word.head_ne {word : Word isTokenChar} {d : Char} (hd : d ∈ reserved)
    (hother : d ≠ '?' ∧ d ≠ '#' ∧ d ≠ ':') : ∀ c ∈ word.chars.head?, c ≠ d := by
  intro c hc
  exact ne_of_isTokenChar (word.allowed_of_mem c (List.mem_of_mem_head? hc)) hd hother

/-- Only a quoted value starts with a quote. -/
theorem Outline.Value.head_ne_quote {value : Value}
    (h : ∀ body units_body, value ≠ .quoted body units_body) :
    ∀ c ∈ value.text.head?, c ≠ '"' := by
  cases value with
  | bare token => exact token.head_ne (by decide) (by decide)
  | quoted body units_body => exact absurd rfl (h body units_body)
  | regex body flags units_body body_ne_nil flags_subset =>
      rintro c ⟨⟩
      decide

theorem Literal.parse_wellFormed (value : Value) :
    (Literal.parse (String.ofList value.text)).WellFormed Literal.IsToken := by
  cases value with
  | bare token =>
      rw [Literal.parse_of_head (Value.head_ne_quote (by simp))]
      exact .inl token.isWord
  | quoted body units_body =>
      rw [Value.text, Literal.parse_quoted]
      trivial
  | regex body flags units_body body_ne_nil flags_subset =>
      rw [Literal.parse_of_head (Value.head_ne_quote (by simp))]
      exact .inr ⟨body, flags, String.toList_ofList, units_body, body_ne_nil, flags_subset⟩

theorem Pattern.isRegex_of_cutLiteral? {value : Value} {body flags : List Char}
    (h : Pattern.cutLiteral? value.text = some (body, flags)) : IsRegex body flags := by
  cases value with
  | bare token =>
      have hhead := token.head_ne (by decide : '/' ∈ reserved) (by decide)
      rw [Value.text] at h
      unfold Pattern.cutLiteral? at h
      split at h
      · next heq => exact absurd rfl (hhead '/' (by rw [heq]; rfl))
      · contradiction
  | quoted body units_body => contradiction
  | regex body flags units_body body_ne_nil flags_subset =>
      have hregex : IsRegex body flags := ⟨units_body, body_ne_nil, flags_subset⟩
      rw [Value.text, Pattern.cutLiteral?_regex hregex] at h
      cases h
      exact hregex

theorem ConstraintKind.ofKeyword?_word (identifier : Word isMethodChar) :
    ConstraintKind.ofKeyword? (String.ofList identifier.chars) ≠ some .capability := by
  intro h
  have hhash : String.ofList identifier.chars = "#" := by
    unfold ConstraintKind.ofKeyword? at h
    split at h <;> first | contradiction | assumption
  have hmem : '#' ∈ identifier.chars := by
    rw [← String.toList_inj, String.toList_ofList] at hhash
    rw [hhash]
    decide
  exact absurd (identifier.allowed_of_mem '#' hmem) (by decide)

theorem Constraint.eq_of_readBound? {raw : String} {bound : Int64}
    (h : Constraint.readBound? raw = some bound) : raw = bound.toInt.repr := by
  unfold Constraint.readBound? at h
  split at h
  · next n hn =>
    split at h
    · next hrange =>
      obtain ⟨hrepr, hmin, hmax⟩ := hrange
      cases h
      rw [Int64.toInt_ofInt_of_le hmin (Int.lt_add_one_of_le hmax), hrepr]
    · contradiction
  · contradiction

variable [RegexEngine]

section WellFormed

variable (isToken : String → Prop)

/-- Any bound can be written. -/
def Constraint.WellFormed : Constraint → Prop
  | .format pattern => IsRegex pattern.body.toList pattern.flags.toList
  | .len _ | .min _ | .max _ => True
  | .val literal => literal.WellFormed isToken
  | .capability method => IsWord isMethodChar method

mutual

/-- Whether the alternatives are well formed. -/
def TypeExpr.WellFormed : TypeExpr → Prop
  | .sum first rest => first.WellFormed ∧ Alternative.AllWellFormed rest

/-- Whether the name, the slots and the constraints are well formed. -/
def Alternative.WellFormed : Alternative → Prop
  | .mk name _ slots constraints =>
    IsWord isNameChar name ∧ TypeExpr.AllWellFormed slots ∧
      ∀ list ∈ constraints, ∀ c ∈ list.toList, c.WellFormed isToken

def Alternative.AllWellFormed : List Alternative → Prop
  | [] => True
  | alternative :: rest => alternative.WellFormed ∧ Alternative.AllWellFormed rest

def TypeExpr.AllWellFormed : List TypeExpr → Prop
  | [] => True
  | expr :: rest => expr.WellFormed ∧ TypeExpr.AllWellFormed rest

end

theorem Alternative.allWellFormed_iff {alternatives : List Alternative} :
    Alternative.AllWellFormed isToken alternatives ↔ ∀ a ∈ alternatives, a.WellFormed isToken := by
  induction alternatives with
  | nil => simp [Alternative.AllWellFormed]
  | cons first rest ih => rw [Alternative.AllWellFormed, ih, List.forall_mem_cons]

theorem TypeExpr.allWellFormed_iff {exprs : List TypeExpr} :
    TypeExpr.AllWellFormed isToken exprs ↔ ∀ e ∈ exprs, e.WellFormed isToken := by
  induction exprs with
  | nil => simp [TypeExpr.AllWellFormed]
  | cons first rest ih => rw [TypeExpr.AllWellFormed, ih, List.forall_mem_cons]

theorem TypeExpr.wellFormed_iff {e : TypeExpr} :
    e.WellFormed isToken ↔ ∀ a ∈ e.alternatives, a.WellFormed isToken := by
  cases e
  rw [TypeExpr.WellFormed, Alternative.allWellFormed_iff, TypeExpr.alternatives,
    List.forall_mem_cons]

end WellFormed

theorem Pattern.eq_of_ofParts {body flags : String} {pattern : Pattern}
    (h : Pattern.ofParts body flags = .ok pattern) :
    pattern.body = body ∧ pattern.flags = flags := by
  unfold Pattern.ofParts at h
  split at h
  · cases h
    exact ⟨rfl, rfl⟩
  · contradiction

/-! ## What parsing gives is well formed -/

theorem Constraint.eq_of_ofBound {make : Int64 → Constraint} {raw : String} {c : Constraint}
    (h : Constraint.ofBound make raw = .ok c) :
    ∃ bound, make bound = c ∧ raw = bound.toInt.repr := by
  unfold Constraint.ofBound at h
  split at h
  · next bound hbound => exact ⟨bound, Except.ok.inj h, Constraint.eq_of_readBound? hbound⟩
  · contradiction

theorem Constraint.ofKind_format_eq_ok_iff {raw : String} {c : Constraint} :
    Constraint.ofKind .format raw = .ok c ↔
      ∃ body flags pattern, Pattern.cutLiteral? raw.toList = some (body, flags) ∧
        Pattern.ofParts (String.ofList body) (String.ofList flags) = .ok pattern ∧
        .format pattern = c := by
  unfold Constraint.ofKind
  dsimp only
  split
  · next hnone => simp [hnone]
  · next body flags hcut => split <;> simp_all

theorem Constraint.ofKind_val_eq_ok_iff {raw : String} {c : Constraint} :
    Constraint.ofKind .val raw = .ok c ↔ raw ≠ "" ∧ .val (Literal.parse raw) = c := by
  rw [Constraint.ofKind]
  split <;> simp_all

theorem Constraint.ofKind_capability_eq_ok_iff {raw : String} {c : Constraint} :
    Constraint.ofKind .capability raw = .ok c ↔ raw ≠ "" ∧ .capability raw = c := by
  rw [Constraint.ofKind]
  split <;> simp_all

theorem Constraint.kind_of_ofKind {kind : ConstraintKind} {raw : String} {c : Constraint}
    (h : Constraint.ofKind kind raw = .ok c) : c.kind = kind := by
  cases kind with
  | capability =>
      obtain ⟨-, rfl⟩ := Constraint.ofKind_capability_eq_ok_iff.1 h
      rfl
  | format =>
      obtain ⟨_, _, _, -, -, rfl⟩ := Constraint.ofKind_format_eq_ok_iff.1 h
      rfl
  | val =>
      obtain ⟨-, rfl⟩ := Constraint.ofKind_val_eq_ok_iff.1 h
      rfl
  | len | min | max =>
      obtain ⟨_, rfl, -⟩ := Constraint.eq_of_ofBound h
      rfl

theorem Constraint.wellFormed_of_ofKind {kind : ConstraintKind} {value : Value} {c : Constraint}
    (hkind : kind ≠ .capability) (h : Constraint.ofKind kind (String.ofList value.text) = .ok c) :
    c.WellFormed Literal.IsToken := by
  cases kind with
  | capability => exact absurd rfl hkind
  | format =>
      obtain ⟨body, flags, pattern, hcut, hpattern, rfl⟩ := Constraint.ofKind_format_eq_ok_iff.1 h
      obtain ⟨hbody, hflags⟩ := Pattern.eq_of_ofParts hpattern
      rw [String.toList_ofList] at hcut
      rw [Constraint.WellFormed, hbody, hflags, String.toList_ofList, String.toList_ofList]
      exact Pattern.isRegex_of_cutLiteral? hcut
  | len =>
      obtain ⟨bound, rfl, -⟩ := Constraint.eq_of_ofBound h
      trivial
  | min =>
      obtain ⟨bound, rfl, -⟩ := Constraint.eq_of_ofBound h
      trivial
  | max =>
      obtain ⟨bound, rfl, -⟩ := Constraint.eq_of_ofBound h
      trivial
  | val =>
      obtain ⟨-, rfl⟩ := Constraint.ofKind_val_eq_ok_iff.1 h
      exact Literal.parse_wellFormed value

namespace Outline

theorem Pair.wellFormed_of_build {pair : Pair} {c : Constraint} (h : pair.build = .ok c) :
    c.WellFormed Literal.IsToken := by
  cases pair with
  | method name =>
      cases h
      exact name.isWord
  | token word =>
      cases h
      exact Literal.isToken_colon word.allowed_of_mem
  | value identifier written =>
      obtain ⟨kind, hkeyword, hof⟩ := Constraint.parse_eq_ok_iff.1 h
      rw [String.toList_ofList, written.trimmed.trim_eq] at hof
      refine Constraint.wellFormed_of_ofKind ?_ hof
      rintro rfl
      exact ConstraintKind.ofKeyword?_word identifier hkeyword

theorem wellFormed_of_mapM {pairs : List Pair} {constraints : List Constraint}
    (h : pairs.mapM Pair.build = .ok constraints) :
    ∀ c ∈ constraints, c.WellFormed Literal.IsToken := by
  induction pairs generalizing constraints with
  | nil =>
      cases h
      intro c hc
      contradiction
  | cons pair pairs ih =>
      rw [List.mapM_cons] at h
      obtain ⟨constraint, hpair, h⟩ := bind_eq_ok_iff.1 h
      obtain ⟨others, hothers, h⟩ := bind_eq_ok_iff.1 h
      cases h
      intro c hc
      obtain rfl | hc := List.mem_cons.1 hc
      · exact Pair.wellFormed_of_build hpair
      · exact ih hothers c hc

theorem toList_of_ofList {constraints : List Constraint} {list : Constraints}
    (h : Constraints.ofList constraints = .ok list) : list.toList = constraints := by
  unfold Constraints.ofList at h
  split at h
  · contradiction
  · split at h
    · contradiction
    · cases h
      rfl

theorem wellFormed_of_buildList {pairs : List Pair} {list : Constraints}
    (h : buildList pairs = .ok list) : ∀ c ∈ list.toList, c.WellFormed Literal.IsToken := by
  rw [buildList] at h
  obtain ⟨constraints, hmap, hlist⟩ := bind_eq_ok_iff.1 h
  rw [toList_of_ofList hlist]
  exact wellFormed_of_mapM hmap

theorem wellFormed_of_buildList? {pairs : List Pair} {constraints : Option Constraints}
    (h : buildList? pairs = .ok constraints) :
    ∀ list ∈ constraints, ∀ c ∈ list.toList, c.WellFormed Literal.IsToken := by
  cases pairs with
  | nil =>
      cases h
      intro list hlist
      contradiction
  | cons pair pairs =>
      rw [buildList?] at h
      obtain ⟨list, hbuild, h⟩ := bind_eq_ok_iff.1 h
      cases h
      rintro list ⟨⟩
      exact wellFormed_of_buildList hbuild

theorem wellFormed_anyWith {list : Constraints}
    (h : ∀ c ∈ list.toList, c.WellFormed Literal.IsToken) :
    (anyWith list).WellFormed Literal.IsToken := by
  refine ⟨by decide, trivial, ?_⟩
  rintro list ⟨⟩
  exact h

theorem wellFormed_singleton {c : Constraint} (h : c.WellFormed Literal.IsToken) :
    (anyWith (.singleton c)).WellFormed Literal.IsToken := by
  apply wellFormed_anyWith
  intro d hd
  obtain rfl := List.mem_singleton.1 hd
  exact h

mutual

theorem wellFormed_of_build : (d : Outline) → ∀ {expr : TypeExpr}, build d = .ok expr →
    expr.WellFormed Literal.IsToken
  | .sum first rest, expr, h => by
      rw [build] at h
      obtain ⟨alternative, hfirst, h⟩ := bind_eq_ok_iff.1 h
      obtain ⟨alternatives, hrest, h⟩ := bind_eq_ok_iff.1 h
      cases h
      exact ⟨wellFormed_of_buildElement first hfirst, wellFormed_of_buildElements rest hrest⟩

theorem wellFormed_of_buildElement : (e : Element) → ∀ {alternative : Alternative},
    buildElement e = .ok alternative → alternative.WellFormed Literal.IsToken
  | .named name optional slots pairs, alternative, h => by
      rw [buildElement] at h
      obtain ⟨exprs, hslots, h⟩ := bind_eq_ok_iff.1 h
      obtain ⟨constraints, hlist, h⟩ := bind_eq_ok_iff.1 h
      cases h
      exact ⟨name.isWord, wellFormed_of_buildSlots slots hslots, wellFormed_of_buildList? hlist⟩
  | .unnamed first rest, alternative, h => by
      rw [buildElement] at h
      obtain ⟨list, hlist, h⟩ := bind_eq_ok_iff.1 h
      cases h
      exact wellFormed_anyWith (wellFormed_of_buildList hlist)
  | .method name, alternative, h => by
      cases h
      exact wellFormed_singleton name.isWord
  | .token name, alternative, h => by
      cases h
      apply wellFormed_singleton
      apply Literal.isToken_colon
      intro c hc
      exact isTokenChar_of_isMethodChar (name.allowed_of_mem c hc)

theorem wellFormed_of_buildElements : (elements : List Element) →
    ∀ {alternatives : List Alternative}, buildElements elements = .ok alternatives →
      Alternative.AllWellFormed Literal.IsToken alternatives
  | [], alternatives, h => by
      cases h
      trivial
  | e :: rest, alternatives, h => by
      rw [buildElements] at h
      obtain ⟨alternative, hfirst, h⟩ := bind_eq_ok_iff.1 h
      obtain ⟨others, hrest, h⟩ := bind_eq_ok_iff.1 h
      cases h
      exact ⟨wellFormed_of_buildElement e hfirst, wellFormed_of_buildElements rest hrest⟩

theorem wellFormed_of_buildSlots : (slots : List Outline) → ∀ {exprs : List TypeExpr},
    buildSlots slots = .ok exprs → TypeExpr.AllWellFormed Literal.IsToken exprs
  | [], exprs, h => by
      cases h
      trivial
  | slot :: slots, exprs, h => by
      rw [buildSlots] at h
      obtain ⟨expr, hslot, h⟩ := bind_eq_ok_iff.1 h
      obtain ⟨others, hslots, h⟩ := bind_eq_ok_iff.1 h
      cases h
      exact ⟨wellFormed_of_build slot hslot, wellFormed_of_buildSlots slots hslots⟩

end

end Outline

theorem TypeExpr.validate_of_parse {definition : String} {expr : TypeExpr}
    (h : TypeExpr.parse definition = .ok expr) : Grammar.validate definition = .ok () := by
  obtain ⟨checked, hvalidate, -⟩ := bind_eq_ok_iff.1 h
  cases hcheck : Grammar.validate definition with
  | ok _ => rfl
  | error e =>
      rw [hcheck] at hvalidate
      cases hvalidate

/-- Every tree that parsing gives is well formed. -/
theorem TypeExpr.wellFormed_of_parse {definition : String} {expr : TypeExpr}
    (h : TypeExpr.parse definition = .ok expr) : expr.WellFormed Literal.IsToken := by
  obtain ⟨d, -, hparse⟩ := TypeExpr.exists_outline (TypeExpr.validate_of_parse h)
  exact wellFormed_of_build d (hparse.symm.trans h)

end DynTypes
