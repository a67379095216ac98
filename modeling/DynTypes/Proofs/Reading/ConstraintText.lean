import DynTypes.Proofs.Reading.RoundTrip
import DynTypes.Regex.Builtin
/-!
# Writing a constraint and reading it again

A constraint can be read from any text, also from one that no definition could hold: a regular
expression with bare slashes in its body, a token with blanks or quotes in it, a quoted text whose
quotes no backslash hides. Whatever it was read from, what it is written as is cut at the same
places again and gives the same constraint.
-/

namespace DynTypes

open Outline (IsWord Word blank_nil isMethodChar ofList_ne_empty)

open Text (Trimmed trim trimmed_trim)

/-! ## Literals -/

theorem Literal.parse_render (raw : String) :
    parse (String.ofList (parse raw).render) = parse raw := by
  cases h : unquote? raw.toList with
  | some inner =>
      have hraw : parse raw = .text (String.ofList (unescape inner)) := by rw [parse, h]
      rw [hraw, render, String.toList_ofList, parse_quoted, unescape_escape]
  | none =>
      have hraw : parse raw = .token raw := by rw [parse, h]
      rw [hraw, render, String.ofList_toList, hraw]

/-- Quotes keep white space away from the ends, and a token has none there. -/
theorem Literal.trimmed_render {value : List Char} (hvalue : Trimmed value) (hne : value ≠ []) :
    Trimmed (parse (String.ofList value)).render ∧ (parse (String.ofList value)).render ≠ [] := by
  rw [parse, String.toList_ofList]
  split
  · have hquote : Trimmed ['"'] := .of_forall (List.forall_mem_singleton.2 rfl)
    exact ⟨hquote.append hquote (List.cons_ne_nil _ _) (List.cons_ne_nil _ _) _,
      List.cons_ne_nil _ _⟩
  · rw [render, String.toList_ofList]
    exact ⟨hvalue, hne⟩

section

variable [RegexEngine]

/-! ## Constraints -/

namespace Constraint

variable {kind : ConstraintKind} {value : List Char} {c : Constraint}

theorem parse_of_ofKind (hvalue : Trimmed value)
    (h : ofKind kind (String.ofList value) = .ok c) :
    parse kind.identifier (String.ofList value) = .ok c := by
  refine parse_eq_ok_iff.2 ⟨kind, ConstraintKind.ofKeyword?_keyword kind, ?_⟩
  rw [String.toList_ofList, hvalue.trim_eq, h]

theorem ofPair_capability (hvalue : Trimmed value)
    (h : ofKind .capability (String.ofList value) = .ok c) : ofPair c.render = .ok c := by
  have hparse : parse "#" (String.ofList value) = .ok c := parse_of_ofKind hvalue h
  obtain ⟨hempty, rfl⟩ := ofKind_capability_eq_ok_iff.1 h
  have hne : value ≠ [] := by
    rintro rfl
    exact hempty rfl
  have hhash : Trimmed ['#'] := .of_forall (List.forall_mem_singleton.2 rfl)
  have htrimmed : Trimmed ('#' :: value) := hhash.append hvalue (List.cons_ne_nil _ _) hne []
  have hrender : (capability (String.ofList value)).render = '#' :: value :=
    congrArg ('#' :: ·) String.toList_ofList
  rw [hrender, ofPair, htrimmed.trim_eq]
  exact hparse

/-- A constraint is written as its identifier, a colon and a text that is read as the same
constraint. -/
structure WrittenAs (kind : ConstraintKind) (c : Constraint) (written : List Char) : Prop where
  trimmed : Trimmed written
  ne_nil : written ≠ []
  render_eq : c.render = kind.identifier.toList ++ ':' :: written
  ofKind_eq : ofKind kind (String.ofList written) = .ok c

theorem WrittenAs.ofPair_eq {written : List Char} (h : c.WrittenAs kind written)
    (hword : IsWord isMethodChar kind.identifier) : ofPair c.render = .ok c := by
  let identifier : Word isMethodChar := .ofText _ kind.identifier hword
  have htext : c.render = [] ++ identifier.chars ++ ':' :: [] ++ written ++ [] := by
    rw [h.render_eq, List.append_nil, List.nil_append, List.append_assoc, List.singleton_append]
    rfl
  have hidentifier : String.ofList identifier.chars = kind.identifier := String.ofList_toList
  rw [htext, ofPair_labelled h.trimmed h.ne_nil blank_nil blank_nil blank_nil, hidentifier]
  exact parse_of_ofKind h.trimmed h.ofKind_eq

theorem writtenAs_of_bound {make : Int64 → Constraint}
    (hof : ∀ raw, ofKind kind raw = ofBound make raw)
    (hrender : ∀ bound, (make bound).render =
      kind.identifier.toList ++ ':' :: bound.toInt.repr.toList)
    (hvalue : Trimmed value) (h : ofKind kind (String.ofList value) = .ok c) :
    c.WrittenAs kind value := by
  obtain ⟨bound, rfl, hraw⟩ := eq_of_ofBound (hof _ ▸ h)
  have hrepr : bound.toInt.repr.toList = value := by rw [← hraw, String.toList_ofList]
  exact ⟨hvalue, hrepr ▸ (isWord_repr _).1, hrepr ▸ hrender bound, h⟩

theorem writtenAs_of_format (hvalue : Trimmed value)
    (h : ofKind .format (String.ofList value) = .ok c) : c.WrittenAs .format value := by
  obtain ⟨body, flags, pattern, hcut, hpattern, rfl⟩ := ofKind_format_eq_ok_iff.1 h
  obtain ⟨hbody, hflags⟩ := Pattern.eq_of_ofParts hpattern
  rw [String.toList_ofList] at hcut
  obtain ⟨htext, -⟩ := Pattern.eq_of_cutLiteral? hcut
  have hrender : pattern.render = value := by
    rw [Pattern.render, hbody, hflags, String.toList_ofList, String.toList_ofList, htext]
  exact ⟨hvalue, htext ▸ List.cons_ne_nil _ _, hrender ▸ rfl, h⟩

/-- A quoted text may be written in another way than it was read. -/
theorem exists_writtenAs_of_val (hvalue : Trimmed value)
    (h : ofKind .val (String.ofList value) = .ok c) : ∃ written, c.WrittenAs .val written := by
  obtain ⟨hempty, rfl⟩ := ofKind_val_eq_ok_iff.1 h
  have hne : value ≠ [] := by
    rintro rfl
    exact hempty rfl
  obtain ⟨htrimmed, hwritten⟩ := Literal.trimmed_render hvalue hne
  refine ⟨(Literal.parse (String.ofList value)).render, htrimmed, hwritten, rfl, ?_⟩
  rw [ofKind_val_eq_ok_iff, Literal.parse_render]
  exact ⟨ofList_ne_empty hwritten, rfl⟩

/-- A constraint that was read from any text is read again from what it is written as. -/
theorem ofPair_render {identifier raw : String} (h : parse identifier raw = .ok c) :
    ofPair c.render = .ok c := by
  obtain ⟨kind, -, hof⟩ := parse_eq_ok_iff.1 h
  have hvalue : Trimmed (trim raw.toList) := trimmed_trim _
  cases kind with
  | format => exact (writtenAs_of_format hvalue hof).ofPair_eq (by decide)
  | len => exact (writtenAs_of_bound ofKind_len (fun _ => rfl) hvalue hof).ofPair_eq (by decide)
  | min => exact (writtenAs_of_bound ofKind_min (fun _ => rfl) hvalue hof).ofPair_eq (by decide)
  | max => exact (writtenAs_of_bound ofKind_max (fun _ => rfl) hvalue hof).ofPair_eq (by decide)
  | val =>
      obtain ⟨written, hwritten⟩ := exists_writtenAs_of_val hvalue hof
      exact hwritten.ofPair_eq (by decide)
  | capability => exact ofPair_capability hvalue hof

end Constraint

end

namespace Constraint

/-- The smallest bound, a regular expression with bare slashes and a colon in its body, a token with
a quote and a colon in it, a quoted text with a bare quote and a backslash at its end, and a method
with a blank in its name. -/
theorem ofPair_render_unwritable :
    (parse "min" "\t-9223372036854775808" = .ok (.min Int64.minValue) ∧
      ofPair (min Int64.minValue).render = .ok (.min Int64.minValue)) ∧
    (∃ pattern, parse "format" " /a/b:[/]/im " = .ok (.format pattern) ∧
      ofPair (format pattern).render = .ok (.format pattern)) ∧
    (parse "val" " a\": b/ " = .ok (.val (.token "a\": b/")) ∧
      ofPair (val (.token "a\": b/")).render = .ok (.val (.token "a\": b/"))) ∧
    (parse "val" "\"a\"b\\\"" = .ok (.val (.text "a\"b\\")) ∧
      ofPair (val (.text "a\"b\\")).render = .ok (.val (.text "a\"b\\"))) ∧
    (parse "#" " to s " = .ok (.capability "to s") ∧
      ofPair (capability "to s").render = .ok (.capability "to s")) := by
  have hread : readBound? "-9223372036854775808" = some Int64.minValue :=
    readBound?_repr Int64.minValue
  have htrim : trim "\t-9223372036854775808".toList = "-9223372036854775808".toList := by decide
  have hbound : parse "min" "\t-9223372036854775808" = .ok (.min Int64.minValue) := by
    refine parse_eq_ok_iff.2 ⟨.min, rfl, ?_⟩
    rw [htrim, String.ofList_toList, ofKind_min, ofBound, hread]
  have htoken : parse "val" " a\": b/ " = .ok (.val (.token "a\": b/")) := by decide +kernel
  have htext : parse "val" "\"a\"b\\\"" = .ok (.val (.text "a\"b\\")) := by decide +kernel
  have hmethod : parse "#" " to s " = .ok (.capability "to s") := by decide +kernel
  obtain ⟨pattern, hparts⟩ : ∃ pattern, Pattern.ofParts "a/b:[/]" "im" = .ok pattern := by
    have hcompiles : (Pattern.ofParts "a/b:[/]" "im").toBool = true := by decide +kernel
    cases hparts : Pattern.ofParts "a/b:[/]" "im" with
    | ok pattern => exact ⟨pattern, rfl⟩
    | error reason =>
        rw [hparts] at hcompiles
        contradiction
  have hpattern : parse "format" " /a/b:[/]/im " = .ok (.format pattern) :=
    parse_eq_ok_iff.2 ⟨.format, rfl, ofKind_format_eq_ok_iff.2 ⟨_, _, pattern, rfl, hparts, rfl⟩⟩
  exact ⟨⟨hbound, ofPair_render hbound⟩, ⟨pattern, hpattern, ofPair_render hpattern⟩,
    ⟨htoken, ofPair_render htoken⟩, ⟨htext, ofPair_render htext⟩, hmethod, ofPair_render hmethod⟩

end Constraint

end DynTypes
