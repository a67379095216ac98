import DynTypes.Proofs.Reading.Compose
import DynTypes.Proofs.Reading.WellFormed
import DynTypes.Regex.Builtin
import DynTypes.TypeExpr.Render
import Mathlib
/-!
# Writing a tree and reading it again

A well-formed tree is written in the spelling of an outline that builds the same tree. So parsing
what was written gives the tree back, and no two trees that parsing gives are written alike.
-/

namespace DynTypes

open Outline

/-! ## Literals -/

theorem Outline.Units.of_cons {closing c : Char} {rest : List Char} (hbackslash : c ≠ '\\')
    (h : Units closing (c :: rest)) : Units closing rest := by
  cases h with
  | plain _ _ hrest => exact hrest
  | escaped hrest => contradiction

namespace Literal

variable {c : Char} {rest : List Char}

theorem escape_cons (hquote : c ≠ '"') (hbackslash : c ≠ '\\') :
    escape (c :: rest) = c :: escape rest := by
  rw [escape]
  · exact hquote
  · exact fun h => absurd h hbackslash
  · exact fun _ _ h => absurd h hbackslash

theorem unescape_cons (hbackslash : c ≠ '\\') : unescape (c :: rest) = c :: unescape rest := by
  rw [unescape]
  · exact fun _ h => absurd h hbackslash
  · exact fun _ h => absurd h hbackslash

/-- A backslash stands for itself unless it hides a quote or another backslash. -/
theorem unescape_backslash (hquote : c ≠ '"') (hbackslash : c ≠ '\\') :
    unescape ('\\' :: c :: rest) = '\\' :: unescape (c :: rest) := by
  rw [unescape]
  · exact fun _ _ h => hquote (List.cons.inj h).1
  · exact fun _ _ h => hbackslash (List.cons.inj h).1

theorem units_escape (text : List Char) : Units '"' (escape text) := by
  fun_induction escape text with
  | case1 => exact .nil
  | case2 rest ih => exact .escaped ih
  | case3 => exact .escaped .nil
  | case4 c rest hc ih => exact .escaped ih
  | case5 c rest hc ih =>
      obtain ⟨hquote, hbackslash⟩ := not_or.1 hc
      rw [escape_cons hquote hbackslash] at ih ⊢
      -- a backslash that is left alone makes a pair with the character behind it
      exact .escaped (Units.of_cons hbackslash ih)
  | case6 c rest hquote hlone hpair ih =>
      exact .plain (ne_backslash hlone hpair) hquote ih

/-- Every text can be written in double quotes. -/
theorem unescape_escape (text : List Char) : unescape (escape text) = text := by
  fun_induction escape text with
  | case1 => rfl
  | case2 rest ih => rw [unescape, ih]
  | case3 => rfl
  | case4 c rest hc ih => rw [unescape, ih]
  | case5 c rest hc ih =>
      obtain ⟨hquote, hbackslash⟩ := not_or.1 hc
      rw [escape_cons hquote hbackslash] at ih ⊢
      rw [unescape_backslash hquote hbackslash, ih]
  | case6 c rest hquote hlone hpair ih =>
      rw [unescape_cons (ne_backslash hlone hpair), ih]

end Literal

/-! ## Bounds -/

theorem isNameChar_of_isDigit {c : Char} (h : c.isDigit = true) : isNameChar c = true := by
  have hrange := Char.isDigit_iff_toNat.1 h
  rw [show '0'.toNat = 48 from rfl, show '9'.toNat = 57 from rfl] at hrange
  have hreserved : ∀ d ∈ reserved, d.toNat < 48 ∨ 57 < d.toNat := by simp [reserved]
  have hmem : c ∉ reserved := by
    intro hc
    have hout := hreserved c hc
    omega
  have hspace : Text.isWhiteSpace c = false := by
    unfold Text.isWhiteSpace
    simp only [Bool.or_eq_false_iff, Bool.and_eq_false_iff, decide_eq_false_iff_not,
      beq_eq_false_iff_ne]
    omega
  rw [isNameChar, hspace, Bool.and_eq_true, Bool.not_eq_true']
  exact ⟨by simpa using hmem, rfl⟩

theorem isWord_repr (n : Int) : IsWord isTokenChar n.repr := by
  have hdigits : ∀ m : Nat, ∀ c ∈ m.repr.toList, isTokenChar c = true := by
    intro m c hc
    rw [Nat.toList_repr] at hc
    have hdigit : c.isDigit = true := Nat.isDigit_of_mem_toDigits (by decide) (by decide) hc
    exact isTokenChar_of_isMethodChar (isMethodChar_of_isNameChar (isNameChar_of_isDigit hdigit))
  have hne : ∀ m : Nat, m.repr.toList ≠ [] := by
    intro m
    rw [Nat.toList_repr]
    exact Nat.toDigits_ne_nil
  rw [Int.repr_eq_if]
  split
  · exact ⟨hne _, hdigits _⟩
  · rw [IsWord, String.toList_append]
    refine ⟨by simp, ?_⟩
    intro c hc
    obtain hc | hc := List.mem_append.1 hc
    · obtain rfl : c = '-' := by simpa using hc
      decide
    · exact hdigits _ c hc

theorem Constraint.readBound?_repr (bound : Int64) :
    Constraint.readBound? bound.toInt.repr = some bound := by
  have hrange : Int64.minValue.toInt ≤ bound.toInt ∧ bound.toInt ≤ Int64.maxValue.toInt :=
    ⟨bound.minValue_le_toInt, bound.toInt_le⟩
  rw [Constraint.readBound?, Int.toInt?_repr]
  dsimp only
  rw [if_pos ⟨rfl, hrange⟩, Int64.ofInt_toInt]

namespace Outline

theorem blank_nil : Blank [] :=
  List.forall_mem_nil _

end Outline

section

variable [RegexEngine]

/-! ## Constraints -/

theorem Pattern.ofParts_self (pattern : Pattern) :
    Pattern.ofParts pattern.body pattern.flags = .ok pattern := by
  have hcompile := pattern.compile_eq
  unfold Pattern.ofParts
  split
  · exact congrArg Except.ok (Pattern.ext_iff.2 ⟨rfl, rfl⟩)
  · next herror =>
    rw [herror] at hcompile
    contradiction

namespace Outline

/-- The pair is what the constraint is written as. -/
def Pair.Writes (pair : Pair) (c : Constraint) : Prop :=
  pair.Spells c.render ∧ pair.build = .ok c

theorem exists_pair_of_kind {kind : ConstraintKind} {value : Value} {c : Constraint}
    (hword : IsWord isMethodChar kind.identifier)
    (hof : Constraint.ofKind kind (String.ofList value.text) = .ok c)
    (hrender : c.render = kind.identifier.toList ++ ':' :: value.text) :
    ∃ pair : Pair, pair.Writes c := by
  refine ⟨.value (.ofText _ kind.identifier hword) value, ?_, ?_⟩
  · have hspells : Pair.Spells (.value (.ofText _ kind.identifier hword) value) _ :=
      .value blank_nil blank_nil blank_nil
    rw [hrender]
    simpa [Word.ofText] using hspells
  · refine Constraint.parse_eq_ok_iff.2 ⟨kind, ?_, ?_⟩
    · rw [Word.ofText, String.ofList_toList, ConstraintKind.ofKeyword?_keyword]
    · rw [String.toList_ofList, value.trimmed.trim_eq, hof]

theorem exists_pair_of_bound {kind : ConstraintKind} {make : Int64 → Constraint} {bound : Int64}
    (hword : IsWord isMethodChar kind.identifier)
    (hof : ∀ raw, Constraint.ofKind kind raw = Constraint.ofBound make raw)
    (hrender : (make bound).render = kind.identifier.toList ++ ':' :: bound.toInt.repr.toList) :
    ∃ pair : Pair, pair.Writes (make bound) := by
  let value : Value := .bare (.ofText _ bound.toInt.repr (isWord_repr _))
  have hraw : String.ofList value.text = bound.toInt.repr := String.ofList_toList
  have hbound : Constraint.ofKind kind (String.ofList value.text) = .ok (make bound) := by
    rw [hof, hraw, Constraint.ofBound, Constraint.readBound?_repr]
  exact exists_pair_of_kind hword hbound hrender

theorem exists_pair_of_literal {literal : Literal} {value : Value}
    (hparse : Literal.parse (String.ofList value.text) = literal)
    (hrender : literal.render = value.text) : ∃ pair : Pair, pair.Writes (.val literal) := by
  have hof : Constraint.ofKind .val (String.ofList value.text) = .ok (.val literal) := by
    rw [Constraint.ofKind_val_eq_ok_iff, hparse]
    exact ⟨ofList_ne_empty value.text_ne_nil, rfl⟩
  have hkeyword : "val:".toList = "val".toList ++ [':'] := by decide
  have hwrite : (Constraint.val literal).render = "val".toList ++ ':' :: value.text := by
    show "val:".toList ++ literal.render = _
    rw [hrender, List.append_cons]
    exact congrArg (· ++ value.text) hkeyword
  have hword : IsWord isMethodChar ConstraintKind.val.identifier := by decide
  exact exists_pair_of_kind hword hof hwrite

theorem exists_pair_of_pattern {pattern : Pattern}
    (hregex : IsRegex pattern.body.toList pattern.flags.toList) :
    ∃ pair : Pair, pair.Writes (.format pattern) := by
  obtain ⟨hunits, hne, hflags⟩ := hregex
  let value : Value := .regex pattern.body.toList pattern.flags.toList hunits hne hflags
  have hof : Constraint.ofKind .format (String.ofList value.text) = .ok (.format pattern) := by
    have hcut := Pattern.cutLiteral?_regex ⟨hunits, hne, hflags⟩
    refine Constraint.ofKind_format_eq_ok_iff.2
      ⟨pattern.body.toList, pattern.flags.toList, pattern, ?_, ?_, rfl⟩
    · rw [String.toList_ofList]
      exact hcut
    · rw [String.ofList_toList, String.ofList_toList, Pattern.ofParts_self]
  have hword : IsWord isMethodChar ConstraintKind.format.identifier := by decide
  exact exists_pair_of_kind hword hof rfl

theorem exists_pair_of_text (text : String) : ∃ pair : Pair, pair.Writes (.val (.text text)) := by
  let value : Value := .quoted (Literal.escape text.toList) (Literal.units_escape _)
  have hparse : Literal.parse (String.ofList value.text) = .text text := by
    simp only [value, Value.text, Literal.parse_quoted, Literal.unescape_escape,
      String.ofList_toList]
  exact exists_pair_of_literal hparse rfl

theorem exists_pair_of_token {token : String} (htoken : Literal.IsToken token) :
    ∃ pair : Pair, pair.Writes (.val (.token token)) := by
  obtain hword | ⟨body, flags, htext, hunits, hne, hflags⟩ := htoken
  · let value : Value := .bare (.ofText _ token hword)
    have hparse : Literal.parse (String.ofList value.text) = .token token := by
      rw [Literal.parse_of_head (Value.head_ne_quote (by simp [value]))]
      exact congrArg Literal.token String.ofList_toList
    exact exists_pair_of_literal hparse rfl
  · let value : Value := .regex body flags hunits hne hflags
    have hvalue : String.ofList value.text = token := by
      rw [← String.toList_inj, String.toList_ofList, htext]
      rfl
    have hparse : Literal.parse (String.ofList value.text) = .token token := by
      rw [Literal.parse_of_head (Value.head_ne_quote (by simp [value])), hvalue]
    exact exists_pair_of_literal hparse htext

theorem exists_pair_of_method {method : String} (hword : IsWord isMethodChar method) :
    ∃ pair : Pair, pair.Writes (.capability method) := by
  have hspells : Pair.Spells (.method (.ofText _ method hword)) _ := .method blank_nil blank_nil
  rw [List.append_nil] at hspells
  refine ⟨.method (.ofText _ method hword), hspells, ?_⟩
  rw [Pair.build, Word.ofText, String.ofList_toList]

/-- Every well-formed constraint can be written as a pair that is read as the same constraint. -/
theorem exists_pair {c : Constraint} (hc : c.WellFormed Literal.IsToken) :
    ∃ pair : Pair, pair.Writes c := by
  cases c with
  | format pattern => exact exists_pair_of_pattern hc
  | len bound => exact exists_pair_of_bound (by decide) Constraint.ofKind_len rfl
  | min bound => exact exists_pair_of_bound (by decide) Constraint.ofKind_min rfl
  | max bound => exact exists_pair_of_bound (by decide) Constraint.ofKind_max rfl
  | val literal =>
      cases literal with
      | text text => exact exists_pair_of_text text
      | token token => exact exists_pair_of_token hc
  | capability method => exact exists_pair_of_method hc

theorem exists_pairs {constraints : List Constraint}
    (h : ∀ c ∈ constraints, c.WellFormed Literal.IsToken) :
    ∃ pairs, List.Forall₂ Pair.Writes pairs constraints := by
  induction constraints with
  | nil => exact ⟨[], .nil⟩
  | cons c constraints ih =>
      obtain ⟨pair, hpair⟩ := exists_pair (h c List.mem_cons_self)
      obtain ⟨pairs, hpairs⟩ := ih fun d hd => h d (List.mem_cons_of_mem c hd)
      exact ⟨pair :: pairs, .cons hpair hpairs⟩

theorem pairsSpell_of_writes {pair : Pair} {pairs : List Pair} {c : Constraint}
    {constraints : List Constraint} (hpair : pair.Writes c)
    (hpairs : List.Forall₂ Pair.Writes pairs constraints) :
    PairsSpell (pair :: pairs)
      ([','].intercalate (c.render :: constraints.map Constraint.render)) := by
  induction hpairs generalizing pair c with
  | nil =>
      rw [List.map_nil, List.intercalate_singleton]
      exact .last hpair.1
  | cons hnext _ ih =>
      rw [List.map_cons, List.intercalate_cons_cons, List.append_assoc, List.singleton_append]
      exact .more hpair.1 (ih hnext)

theorem mapM_build_of_writes {pairs : List Pair} {constraints : List Constraint}
    (h : List.Forall₂ Pair.Writes pairs constraints) :
    pairs.mapM Pair.build = .ok constraints := by
  induction h with
  | nil => rfl
  | cons hpair _ ih =>
      rw [List.mapM_cons, hpair.2, ih]
      rfl

end Outline

theorem Constraints.ofList_toList (list : Constraints) :
    Constraints.ofList list.toList = .ok list := by
  have hnone : Constraints.firstRepeated? [] (list.toList.map Constraint.key) = none :=
    Constraints.firstRepeated?_eq_none.2 ⟨list.nodup_keys, fun _ _ => List.not_mem_nil⟩
  rw [Constraints.ofList, dif_neg list.toList_ne_nil]
  split
  · next key hkey =>
    rw [hnone] at hkey
    contradiction
  · rfl

namespace Outline

theorem exists_list {constraints : Option Constraints}
    (h : ∀ list ∈ constraints, ∀ c ∈ list.toList, c.WellFormed Literal.IsToken) :
    ∃ pairs, ListSpells pairs (constraints.elim [] Constraints.render) ∧
      buildList? pairs = .ok constraints := by
  cases constraints with
  | none => exact ⟨[], .absent, rfl⟩
  | some list =>
      obtain ⟨pairs, hpairs⟩ := exists_pairs (h list rfl)
      have hmap := mapM_build_of_writes hpairs
      have hlist : buildList pairs = .ok list := by
        rw [buildList, hmap]
        exact list.ofList_toList
      have hne := list.toList_ne_nil
      rw [Option.elim_some, Constraints.render]
      revert hpairs hne
      generalize list.toList = constraints
      intro hpairs hne
      cases hpairs with
      | nil => contradiction
      | cons hpair hothers =>
          refine ⟨_, .present (pairsSpell_of_writes hpair hothers), ?_⟩
          rw [buildList?, hlist]
          rfl

/-! ## Trees -/

/-- The element is what the alternative is written as. -/
def Element.Writes (e : Element) (alternative : Alternative) : Prop :=
  ElementSpells e alternative.render ∧ buildElement e = .ok alternative

/-- The outline is what the expression is written as. -/
def Writes (d : Outline) (expr : TypeExpr) : Prop :=
  Spells d expr.render ∧ build d = .ok expr

theorem spells_of_writes {e : Element} {rest : List Element} {alternative : Alternative}
    {others : List Alternative} (he : e.Writes alternative)
    (hrest : List.Forall₂ Element.Writes rest others) :
    Spells (.sum e rest)
      (['|'].intercalate (alternative.render :: others.map Alternative.render)) := by
  induction hrest generalizing e alternative with
  | nil =>
      have hspells := Spells.last blank_nil he.1 blank_nil
      rw [List.append_nil, List.nil_append] at hspells
      rw [List.map_nil, List.intercalate_singleton]
      exact hspells
  | cons hnext _ ih =>
      have hspells := Spells.more blank_nil he.1 blank_nil (ih hnext)
      rw [List.append_nil, List.nil_append] at hspells
      rw [List.map_cons, List.intercalate_cons_cons, List.append_assoc, List.singleton_append]
      exact hspells

theorem buildElements_of_writes {elements : List Element} {alternatives : List Alternative}
    (h : List.Forall₂ Element.Writes elements alternatives) :
    buildElements elements = .ok alternatives := by
  induction h with
  | nil => rfl
  | cons he _ ih =>
      rw [buildElements, he.2, ih]
      rfl

theorem buildSlots_of_writes {slots : List Outline} {exprs : List TypeExpr}
    (h : List.Forall₂ Writes slots exprs) : buildSlots slots = .ok exprs := by
  induction h with
  | nil => rfl
  | cons hslot _ ih =>
      rw [buildSlots, hslot.2, ih]
      rfl

theorem slotsSpell_of_writes {slots : List Outline} {exprs : List TypeExpr}
    (h : List.Forall₂ Writes slots exprs) :
    SlotsSpell slots (if exprs.isEmpty then []
      else '<' :: [','].intercalate (TypeExpr.renderAll exprs) ++ ['>']) := by
  rw [TypeExpr.renderAll_eq_map]
  have hspells : List.Forall₂ Spells slots (exprs.map TypeExpr.render) :=
    List.forall₂_map_right_iff.2 (h.imp fun _ _ hwrites => hwrites.1)
  cases h with
  | nil => exact .absent
  | cons => exact .present (seriesSpells_intercalate hspells (List.cons_ne_nil _ _))

mutual

theorem exists_writes : (expr : TypeExpr) → expr.WellFormed Literal.IsToken →
    ∃ d : Outline, d.Writes expr
  | .sum first rest, h => by
      obtain ⟨e, he⟩ := exists_element first h.1
      obtain ⟨others, hothers⟩ := exists_elements rest h.2
      refine ⟨.sum e others, ?_, ?_⟩
      · rw [TypeExpr.render, Alternative.renderAll_eq_map]
        exact spells_of_writes he hothers
      · rw [build, he.2, buildElements_of_writes hothers]
        rfl

theorem exists_element : (alternative : Alternative) →
    alternative.WellFormed Literal.IsToken → ∃ e : Element, e.Writes alternative
  | .mk name optional slots constraints, h => by
      obtain ⟨outlines, hslots⟩ := exists_slots slots h.2.1
      obtain ⟨pairs, hlist, hbuild⟩ := exists_list h.2.2
      refine ⟨.named (.ofText _ name h.1) optional outlines pairs, ?_, ?_⟩
      · exact .named (slotsSpell_of_writes hslots) hlist
      · rw [buildElement, buildSlots_of_writes hslots, hbuild, Word.ofText, String.ofList_toList]
        rfl

theorem exists_elements : (alternatives : List Alternative) →
    Alternative.AllWellFormed Literal.IsToken alternatives →
    ∃ elements, List.Forall₂ Element.Writes elements alternatives
  | [], _ => ⟨[], .nil⟩
  | alternative :: rest, h => by
      obtain ⟨e, he⟩ := exists_element alternative h.1
      obtain ⟨others, hothers⟩ := exists_elements rest h.2
      exact ⟨e :: others, .cons he hothers⟩

theorem exists_slots : (exprs : List TypeExpr) →
    TypeExpr.AllWellFormed Literal.IsToken exprs → ∃ slots, List.Forall₂ Writes slots exprs
  | [], _ => ⟨[], .nil⟩
  | expr :: rest, h => by
      obtain ⟨slot, hslot⟩ := exists_writes expr h.1
      obtain ⟨others, hothers⟩ := exists_slots rest h.2
      exact ⟨slot :: others, .cons hslot hothers⟩

end

end Outline

namespace TypeExpr

theorem parse_toString {expr : TypeExpr} (h : expr.WellFormed Literal.IsToken) :
    parse (toString expr) = .ok expr := by
  obtain ⟨d, hspells, hbuild⟩ := exists_writes expr h
  have htext : (toString expr).toList = expr.render := String.toList_ofList
  rw [← htext] at hspells
  exact (parse_eq_build hspells).trans hbuild

/-- Parsing and writing are inverse to each other on well-formed trees, and these are all the trees
that parsing gives. -/
theorem parse_render_inverse :
    (∀ definition expr, parse definition = .ok expr → expr.WellFormed Literal.IsToken) ∧
      (∀ expr : TypeExpr, expr.WellFormed Literal.IsToken → parse (toString expr) = .ok expr) ∧
      (∀ definition expr, parse definition = .ok expr →
        parse (toString expr) = parse definition) ∧
      ∀ definition definition' expr expr', parse definition = .ok expr →
        parse definition' = .ok expr' → toString expr = toString expr' → expr = expr' := by
  have hagain : ∀ definition expr, parse definition = .ok expr →
      parse (toString expr) = .ok expr := by
    intro definition expr h
    exact parse_toString (wellFormed_of_parse h)
  refine ⟨fun _ _ h => wellFormed_of_parse h, fun _ h => parse_toString h, ?_, ?_⟩
  · intro definition expr h
    rw [hagain definition expr h, h]
  · intro definition definition' expr expr' h h' htext
    have hsame : (.ok expr : Except DefinitionError TypeExpr) = .ok expr' := by
      rw [← hagain definition expr h, htext, hagain definition' expr' h']
    exact Except.ok.inj hsame

/-- A text whose literal is compared with a regular expression as it is written. -/
def regexToken : TypeExpr :=
  .sum (.mk "String" false [] (some (.singleton (.val (.token "/a/"))))) []

end TypeExpr

end

namespace TypeExpr

theorem parse_render_inverse_regexToken :
    parse "String( val: /a/ )" = .ok regexToken ∧ regexToken.WellFormed Literal.IsToken ∧
      parse (toString regexToken) = .ok regexToken ∧
      parse (toString regexToken) = parse "String( val: /a/ )" := by
  have hparse : parse "String( val: /a/ )" = .ok regexToken := rfl
  obtain ⟨hformed, hread, hagain, -⟩ := parse_render_inverse
  exact ⟨hparse, hformed _ _ hparse, hread _ (hformed _ _ hparse), hagain _ _ hparse⟩

/-- The tokens that parsing gives are not all words. -/
theorem not_isWord_of_parse :
    parse "String(val:/a/)" = .ok regexToken ∧
      ¬ regexToken.WellFormed (IsWord isTokenChar) := by
  refine ⟨rfl, ?_⟩
  rintro ⟨⟨-, -, h⟩, -⟩
  have hword : IsWord isTokenChar "/a/" := h _ rfl _ (List.mem_singleton.2 rfl)
  exact absurd hword (by decide)

end TypeExpr

end DynTypes
