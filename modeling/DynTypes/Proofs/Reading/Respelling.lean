import DynTypes.Proofs.Reading.ConstraintText
import DynTypes.Proofs.Reading.Quoting
import DynTypes.Regex.Builtin
/-!
# Definitions that are read and written again

A definition that is read and written again has the quoted literals that it had, in the same order,
each as it is written by itself. All else that is written holds no delimiters but those of regular
expressions.
-/

namespace DynTypes

open Outline

/-! ## Pieces of definitions -/

/-- The second text has the quoted literals of the first, each as it is written once it has been
read. -/
def Respells (text written : List Char) : Prop :=
  ∃ literals, Quotes text literals ∧ Quotes written (literals.map Literal.rewrite)

namespace Respells

variable {text written left right : List Char}

theorem append {other other' : List Char} (h : Respells text written)
    (hother : Respells other other') : Respells (text ++ other) (written ++ other') := by
  obtain ⟨literals, htext, hwritten⟩ := h
  obtain ⟨others, htext', hwritten'⟩ := hother
  refine ⟨literals ++ others, htext.append htext', ?_⟩
  rw [List.map_append]
  exact hwritten.append hwritten'

theorem of_undelimited (htext : Undelimited text) (hwritten : Undelimited written) :
    Respells text written :=
  ⟨[], .of_undelimited htext, .of_undelimited hwritten⟩

theorem same (h : Undelimited text) : Respells text text :=
  .of_undelimited h h

theorem nil : Respells [] [] :=
  .same (List.forall_mem_nil _)

/-- White space around the text holds no literals, and none of it is written. -/
theorem surround (hleft : Blank left) (hright : Blank right) (h : Respells text written) :
    Respells (left ++ text ++ right) written := by
  have hfront : Respells left [] := of_undelimited (.of_blank hleft) (.of_blank blank_nil)
  have hback : Respells right [] := of_undelimited (.of_blank hright) (.of_blank blank_nil)
  simpa using (hfront.append h).append hback

/-- A character that opens no literal and is written as it stands. -/
theorem cons {c : Char} (hc : c ≠ '"' ∧ c ≠ '/') (h : Respells text written) :
    Respells (c :: text) (c :: written) := by
  have hsame : Undelimited [c] := List.forall_mem_singleton.2 hc
  exact (same hsame).append h

theorem intercalate_cons {c : Char} (hc : c ≠ '"' ∧ c ≠ '/') {others next : List Char}
    {rest : List (List Char)} (h : Respells text written)
    (hothers : Respells others ([c].intercalate (next :: rest))) :
    Respells (text ++ c :: others) ([c].intercalate (written :: next :: rest)) := by
  rw [List.intercalate_cons_cons, List.append_assoc]
  exact h.append (hothers.cons hc)

theorem bracket {opener closer : Char} (hopener : opener ≠ '"' ∧ opener ≠ '/')
    (hcloser : closer ≠ '"' ∧ closer ≠ '/') (h : Respells text written) :
    Respells (opener :: text ++ [closer]) (opener :: written ++ [closer]) := by
  have hlast : Undelimited [closer] := List.forall_mem_singleton.2 hcloser
  exact (h.cons hopener).append (.same hlast)

theorem value (value : Outline.Value) : Respells value.text (Literal.rewrite value.text) := by
  refine ⟨value.literals, .value value, ?_⟩
  cases value with
  | quoted body units_body =>
      have hquoted : Literal.rewrite ('"' :: body ++ ['"']) =
          '"' :: Literal.escape (Literal.unescape body) ++ ['"'] := by
        rw [Literal.rewrite, Literal.parse_quoted, Literal.render, String.toList_ofList]
      have hwritten : Quotes (Literal.rewrite ('"' :: body ++ ['"']))
          [Literal.rewrite ('"' :: body ++ ['"'])] := by
        rw [hquoted]
        exact .value (.quoted _ (Literal.units_escape _))
      exact hwritten
  | bare | regex =>
      rw [Literal.rewrite_of_unquoted rfl]
      exact .value _

end Respells

theorem ConstraintKind.undelimited_identifier (kind : ConstraintKind) :
    Undelimited kind.identifier.toList := by
  cases kind <;> simp [Undelimited, identifier]

section

variable [RegexEngine]

/-! ## Definitions -/

theorem Constraint.undelimited_capability {method : List Char}
    (h : ∀ c ∈ method, isMethodChar c = true) :
    Undelimited (Constraint.capability (String.ofList method)).render := by
  have hmethod : Undelimited (String.ofList method).toList := by
    rw [String.toList_ofList]
    exact .of_methodChars h
  exact .cons (by decide) hmethod

theorem Constraint.undelimited_token {token : List Char}
    (h : ∀ c ∈ token, isTokenChar c = true) :
    Undelimited (Constraint.val (.token (String.ofList (':' :: token)))).render := by
  have htoken : Undelimited (String.ofList (':' :: token)).toList := by
    rw [String.toList_ofList]
    exact .cons (by decide) (.of_tokenChars h)
  exact (ConstraintKind.undelimited_identifier .val).append (.cons (c := ':') (by decide) htoken)

/-- The value of a constraint is written as a literal of the same text would be. -/
theorem Constraint.render_of_ofKind {kind : ConstraintKind} {text : List Char} {c : Constraint}
    (hkind : kind ≠ .capability) (hvalue : Text.Trimmed text)
    (h : ofKind kind (String.ofList text) = .ok c) :
    c.render = kind.identifier.toList ++ ':' :: Literal.rewrite text := by
  have hbound : ∀ {make : Int64 → Constraint},
      ofBound make (String.ofList text) = .ok c → Literal.rewrite text = text := by
    intro make hof
    obtain ⟨bound, -, hraw⟩ := eq_of_ofBound hof
    have htext : text = bound.toInt.repr.toList := by rw [← hraw, String.toList_ofList]
    apply Literal.rewrite_of_head
    intro d hd
    have htoken := (isWord_repr bound.toInt).2 d (htext ▸ List.mem_of_mem_head? hd)
    exact ne_of_isTokenChar htoken (by decide) (by decide)
  cases kind with
  | capability => exact absurd rfl hkind
  | format =>
      obtain ⟨body, flags, _, hcut, -, -⟩ := ofKind_format_eq_ok_iff.1 h
      rw [String.toList_ofList] at hcut
      have hsame : Literal.rewrite text = text := by
        apply Literal.rewrite_of_head
        rw [(Pattern.eq_of_cutLiteral? hcut).1]
        rintro d ⟨⟩
        decide
      rw [hsame]
      exact (writtenAs_of_format hvalue h).render_eq
  | len =>
      rw [hbound (ofKind_len _ ▸ h)]
      exact (writtenAs_of_bound ofKind_len (fun _ => rfl) hvalue h).render_eq
  | min =>
      rw [hbound (ofKind_min _ ▸ h)]
      exact (writtenAs_of_bound ofKind_min (fun _ => rfl) hvalue h).render_eq
  | max =>
      rw [hbound (ofKind_max _ ▸ h)]
      exact (writtenAs_of_bound ofKind_max (fun _ => rfl) hvalue h).render_eq
  | val =>
      obtain ⟨-, rfl⟩ := ofKind_val_eq_ok_iff.1 h
      rfl

namespace Outline

theorem Pair.Spells.respells {pair : Pair} {text : List Char} {c : Constraint}
    (hspells : pair.Spells text) (hbuild : pair.build = .ok c) : Respells text c.render := by
  cases hspells with
  | @method name left right hleft hright =>
      cases hbuild
      have hmethod : Undelimited ('#' :: name.chars) :=
        .cons (by decide) (.of_methodChars name.allowed_of_mem)
      exact .surround hleft hright
        (.of_undelimited hmethod (Constraint.undelimited_capability name.allowed_of_mem))
  | @token token left right hleft hright =>
      cases hbuild
      have htoken : Undelimited (':' :: token.chars) :=
        .cons (by decide) (.of_tokenChars token.allowed_of_mem)
      exact .surround hleft hright
        (.of_undelimited htoken (Constraint.undelimited_token token.allowed_of_mem))
  | @value identifier written left gap right hleft hgap hright =>
      obtain ⟨kind, hkeyword, hof⟩ := Constraint.parse_eq_ok_iff.1 hbuild
      rw [String.toList_ofList, written.trimmed.trim_eq] at hof
      have hkind : kind ≠ .capability := by
        rintro rfl
        exact ConstraintKind.ofKeyword?_word identifier hkeyword
      have hname : Respells identifier.chars kind.identifier.toList :=
        .of_undelimited (.of_methodChars identifier.allowed_of_mem) kind.undelimited_identifier
      have hvalue : Respells (gap ++ written.text ++ []) (Literal.rewrite written.text) :=
        .surround hgap blank_nil (.value written)
      have hpair := (hname.append (hvalue.cons (c := ':') (by decide))).surround hleft hright
      rw [Constraint.render_of_ofKind hkind written.trimmed hof]
      simpa using hpair

theorem respells_pairs {pairs : List Pair} {text : List Char} {constraints : List Constraint}
    (hspells : PairsSpell pairs text) (hbuild : pairs.mapM Pair.build = .ok constraints) :
    constraints ≠ [] ∧ Respells text ([','].intercalate (constraints.map Constraint.render)) := by
  induction hspells generalizing constraints with
  | last hpair =>
      rw [List.mapM_cons] at hbuild
      obtain ⟨c, hc, hbuild⟩ := bind_eq_ok_iff.1 hbuild
      cases hbuild
      refine ⟨List.cons_ne_nil _ _, ?_⟩
      change Respells _ ([','].intercalate [c.render])
      rw [List.intercalate_singleton]
      exact hpair.respells hc
  | more hpair hothers ih =>
      rw [List.mapM_cons] at hbuild
      obtain ⟨c, hc, hbuild⟩ := bind_eq_ok_iff.1 hbuild
      obtain ⟨others, hmap, hbuild⟩ := bind_eq_ok_iff.1 hbuild
      cases hbuild
      obtain ⟨hne, hrest⟩ := ih hmap
      obtain ⟨next, others, rfl⟩ := List.exists_cons_of_ne_nil hne
      exact ⟨List.cons_ne_nil _ _, (hpair.respells hc).intercalate_cons (by decide) hrest⟩

theorem respells_constraints {pairs : List Pair} {text : List Char} {constraints : Constraints}
    (hspells : PairsSpell pairs text) (hbuild : buildList pairs = .ok constraints) :
    Respells ('(' :: text ++ [')']) constraints.render := by
  obtain ⟨list, hmap, hlist⟩ := bind_eq_ok_iff.1 hbuild
  obtain rfl := toList_of_ofList hlist
  exact (respells_pairs hspells hmap).2.bracket (by decide) (by decide)

theorem respells_list {pairs : List Pair} {text : List Char} {constraints : Option Constraints}
    (hspells : ListSpells pairs text) (hbuild : buildList? pairs = .ok constraints) :
    Respells text (constraints.elim [] Constraints.render) := by
  cases hspells with
  | absent =>
      cases hbuild
      exact .nil
  | present hpairs =>
      cases pairs with
      | nil => nomatch hpairs
      | cons pair pairs =>
          obtain ⟨list, hlist, hsome⟩ := bind_eq_ok_iff.1 hbuild
          cases hsome
          exact respells_constraints hpairs hlist

/-- What is written of any object shows its name. -/
theorem respells_anyWith {text : List Char} {constraints : Constraints}
    (h : Respells text constraints.render) : Respells text (anyWith constraints).render := by
  have hname : Undelimited Alternative.anyName.toList := by
    simp [Undelimited, Alternative.anyName]
  have hempty : Undelimited [] := List.forall_mem_nil _
  exact (Respells.of_undelimited hempty (hname.append hempty)).append h

theorem respells_single {text : List Char} {c : Constraint} (htext : Undelimited text)
    (hc : Undelimited c.render) : Respells text (anyWith (.singleton c)).render := by
  have hlist : Undelimited (Constraints.singleton c).render := by
    change Undelimited ('(' :: [','].intercalate [c.render] ++ [')'])
    rw [List.intercalate_singleton]
    exact .append (.cons (by decide) hc) (.cons (by decide) (List.forall_mem_nil _))
  exact respells_anyWith (.of_undelimited htext hlist)

mutual

theorem respells_sum {d : Outline} {text : List Char} : Spells d text →
    ∀ {expr : TypeExpr}, build d = .ok expr → Respells text expr.render
  | @Spells.last e left written right hleft helement hright, expr, h => by
      rw [build] at h
      obtain ⟨alternative, hfirst, h⟩ := bind_eq_ok_iff.1 h
      cases h
      change Respells _ (['|'].intercalate [alternative.render])
      rw [List.intercalate_singleton]
      exact .surround hleft hright (respells_element helement hfirst)
  | @Spells.more e next rest left written right others hleft helement hright hothers, expr, h => by
      rw [build_sum_cons] at h
      obtain ⟨alternative, hfirst, h⟩ := bind_eq_ok_iff.1 h
      obtain ⟨⟨second, alternatives⟩, hexpr, h⟩ := bind_eq_ok_iff.1 h
      cases h
      have hfront := Respells.surround hleft hright (respells_element helement hfirst)
      exact hfront.intercalate_cons (by decide) (respells_sum hothers hexpr)

theorem respells_element {e : Element} {text : List Char} : ElementSpells e text →
    ∀ {alternative : Alternative}, buildElement e = .ok alternative →
      Respells text alternative.render
  | @ElementSpells.named name optional slots pairs inner list hslots hlist, alternative, h => by
      rw [buildElement] at h
      obtain ⟨exprs, hexprs, h⟩ := bind_eq_ok_iff.1 h
      obtain ⟨constraints, hconstraints, h⟩ := bind_eq_ok_iff.1 h
      cases h
      have hname : Respells name.chars (String.ofList name.chars).toList := by
        rw [String.toList_ofList]
        exact .same (.of_nameChars name.allowed_of_mem)
      have hmark : Respells (mark optional) (mark optional) := by
        cases optional
        · exact .nil
        · exact .same (.cons (by decide) (List.forall_mem_nil _))
      exact ((hname.append hmark).append (respells_slots hslots hexprs)).append
        (respells_list hlist hconstraints)
  | @ElementSpells.unnamed first rest written hpairs, alternative, h => by
      rw [buildElement] at h
      obtain ⟨constraints, hconstraints, h⟩ := bind_eq_ok_iff.1 h
      cases h
      exact respells_anyWith (respells_constraints hpairs hconstraints)
  | @ElementSpells.method name, alternative, h => by
      cases h
      exact respells_single (.cons (by decide) (.of_methodChars name.allowed_of_mem))
        (Constraint.undelimited_capability name.allowed_of_mem)
  | @ElementSpells.token name, alternative, h => by
      cases h
      have htoken : ∀ c ∈ name.chars, isTokenChar c = true := fun c hc =>
        isTokenChar_of_isMethodChar (name.allowed_of_mem c hc)
      exact respells_single (.cons (by decide) (.of_tokenChars htoken))
        (Constraint.undelimited_token htoken)

theorem respells_slots {slots : List Outline} {text : List Char} : SlotsSpell slots text →
    ∀ {exprs : List TypeExpr}, buildSlots slots = .ok exprs →
      Respells text (if exprs.isEmpty then []
        else '<' :: [','].intercalate (TypeExpr.renderAll exprs) ++ ['>'])
  | .absent, exprs, h => by
      cases h
      exact .nil
  | .present hslots, exprs, h => by
      obtain ⟨first, rest, rfl, hseries⟩ := respells_series hslots h
      exact hseries.bracket (by decide) (by decide)

/-- There is at least one slot. -/
theorem respells_series {slots : List Outline} {text : List Char} : SeriesSpells slots text →
    ∀ {exprs : List TypeExpr}, buildSlots slots = .ok exprs →
      ∃ first rest, exprs = first :: rest ∧
        Respells text ([','].intercalate (TypeExpr.renderAll (first :: rest)))
  | @SeriesSpells.last slot written hslot, exprs, h => by
      rw [buildSlots] at h
      obtain ⟨expr, hexpr, h⟩ := bind_eq_ok_iff.1 h
      cases h
      refine ⟨expr, [], rfl, ?_⟩
      change Respells _ ([','].intercalate [expr.render])
      rw [List.intercalate_singleton]
      exact respells_sum hslot hexpr
  | @SeriesSpells.more slot slots written others hslot hothers, exprs, h => by
      rw [buildSlots] at h
      obtain ⟨expr, hexpr, h⟩ := bind_eq_ok_iff.1 h
      obtain ⟨exprs, hrest, h⟩ := bind_eq_ok_iff.1 h
      cases h
      obtain ⟨next, rest, rfl, hseries⟩ := respells_series hothers hrest
      exact ⟨expr, next :: rest, rfl,
        (respells_sum hslot hexpr).intercalate_cons (by decide) hseries⟩

end

end Outline

/-! ## Whole definitions -/

theorem TypeExpr.respells_of_parse {definition : String} {expr : TypeExpr}
    (h : parse definition = .ok expr) : Respells definition.toList (toString expr).toList := by
  obtain ⟨d, hspells, hparse⟩ := exists_outline (validate_of_parse h)
  have hrender : (toString expr).toList = expr.render := String.toList_ofList
  rw [hrender]
  exact respells_sum hspells (hparse.symm.trans h)

/-- A quoted literal is written as it was read, but for each doubled backslash that stands directly
in front of a character of its own and comes back as a single one; so it comes back as it was just
if there is none, and means the same in any case. What holds of a literal holds of all those in a
definition: they come back in their order, each as it is written by itself. -/
theorem quoted_literals_respelled (q : List Char) (definition : String) :
    (Delimiter.IsQuoted q → ∃ units : List LiteralUnit, (∀ u ∈ units, u.Fits '"') ∧
      q = '"' :: units.flatMap LiteralUnit.text ++ ['"'] ∧
      Literal.rewrite q = '"' :: LiteralUnit.respell units ++ ['"'] ∧
      (Literal.rewrite q = q ↔ units.IsChain fun u v => ¬ u.Shrinks v) ∧
      Literal.parse (String.ofList (Literal.rewrite q)) = Literal.parse (String.ofList q)) ∧
    ∀ expr, TypeExpr.parse definition = .ok expr →
      (∀ written ∈ quotedLiterals definition.toList, Delimiter.IsQuoted written) ∧
      quotedLiterals (toString expr).toList =
        (quotedLiterals definition.toList).map Literal.rewrite ∧
      (quotedLiterals (toString expr).toList = quotedLiterals definition.toList ↔
        ∀ written ∈ quotedLiterals definition.toList, Literal.rewrite written = written) := by
  constructor
  · intro hq
    obtain ⟨units, hunits, rfl⟩ := Delimiter.isQuoted_iff.1 hq
    have hrewrite := Literal.rewrite_quoted hunits
    refine ⟨units, hunits, rfl, hrewrite, ?_, Literal.parse_render _⟩
    rw [hrewrite, ← LiteralUnit.respell_eq_iff hunits]
    simp
  · intro expr h
    obtain ⟨literals, hdefinition, hwritten⟩ := TypeExpr.respells_of_parse h
    refine ⟨fun written hmem => isQuoted_of_mem hmem, ?_⟩
    rw [hdefinition.eq, hwritten.eq]
    refine ⟨rfl, ?_⟩
    nth_rewrite 2 [← List.map_id literals]
    exact List.map_inj_left

end

/-- Doubled backslashes that come back: in front of an escaped quote, of an escape and at the end.
The quote in the regular expression starts no literal. -/
theorem quoted_literals_respelled_kept :
    let q : List Char := ['"', '\\', '\\', '\\', '"', '\\', '\\', '\\', 'n', '\\', '\\', '"']
    let definition := "String(val: \"\\\\\\\"\\\\\\n\\\\\", format: /\"/)"
    (Delimiter.IsQuoted q ∧ Literal.rewrite q = q ∧
        ∃ units : List LiteralUnit, q = '"' :: units.flatMap LiteralUnit.text ++ ['"'] ∧
          units.IsChain fun u v => ¬ u.Shrinks v) ∧
      ∃ expr, TypeExpr.parse definition = .ok expr ∧ quotedLiterals definition.toList = [q] ∧
        quotedLiterals (toString expr).toList = [q] := by
  intro q definition
  have hquoted : Delimiter.IsQuoted q := ⟨rfl, rfl⟩
  have hsame : Literal.rewrite q = q := by decide +kernel
  have hliterals : quotedLiterals definition.toList = [q] := by decide +kernel
  have hparse : (TypeExpr.parse definition).toOption.isSome = true := by decide +kernel
  obtain ⟨hone, hall⟩ := quoted_literals_respelled q definition
  obtain ⟨units, -, htext, -, hiff, -⟩ := hone hquoted
  refine ⟨⟨hquoted, hsame, units, htext, hiff.1 hsame⟩, ?_⟩
  cases hexpr : TypeExpr.parse definition with
  | error error =>
      rw [hexpr] at hparse
      contradiction
  | ok expr =>
      obtain ⟨-, -, hkept⟩ := hall expr hexpr
      refine ⟨expr, rfl, hliterals, ?_⟩
      rw [← hliterals, hkept, hliterals]
      exact List.forall_mem_singleton.2 hsame

/-- A doubled backslash in front of a letter does not come back, by itself and in a definition. -/
theorem not_rewrite_eq_self :
    let q : List Char := ['"', '\\', '\\', 'a', '"']
    (Delimiter.IsQuoted q ∧ Literal.rewrite q = ['"', '\\', 'a', '"'] ∧ Literal.rewrite q ≠ q) ∧
      ((TypeExpr.parse "String(val:\"\\\\a\")").map toString).toOption =
        some "String(val:\"\\a\")" := by
  intro q
  have hrewrite : Literal.rewrite q = ['"', '\\', 'a', '"'] := by decide +kernel
  refine ⟨⟨⟨rfl, rfl⟩, hrewrite, ?_⟩, by decide +kernel⟩
  rw [hrewrite]
  decide

end DynTypes
