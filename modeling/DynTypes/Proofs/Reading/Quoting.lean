import DynTypes.Proofs.Reading.Literals
/-!
# Quoted literals

Reading a quoted literal takes the backslash away from every quote and from every other backslash.
Writing it puts back only the backslashes without which another text would be read. So a doubled
backslash stays doubled in front of a quote, of a further backslash and at the end; in front of any
other character it comes back as a single one. The quoted literals of any text are found by the
scan, from left to right.
-/

namespace DynTypes

open Outline

/-! ## Reading and writing one literal -/

namespace LiteralUnit

/-- A doubled backslash that stands directly in front of a character of its own. -/
def Shrinks (u v : LiteralUnit) : Prop :=
  u = escaped '\\' ∧ ∃ c, v = plain c

/-- How the units of a quoted text are written once they have been read. -/
def respell : List LiteralUnit → List Char
  | escaped '\\' :: plain c :: rest => '\\' :: c :: respell rest
  | u :: rest => u.text ++ respell rest
  | [] => []

variable {units : List LiteralUnit}

/-- What is behind a doubled backslash that is not to shrink starts with a quote or a backslash, or
is nothing. -/
theorem escape_backslash (h : ∀ u ∈ units.head?, ¬ (escaped '\\').Shrinks u) :
    Literal.escape ('\\' :: units.flatMap meaning) =
      '\\' :: '\\' :: Literal.escape (units.flatMap meaning) := by
  cases units with
  | nil => rfl
  | cons u rest =>
      cases u with
      | plain c => exact absurd ⟨rfl, c, rfl⟩ (h _ rfl)
      | escaped c =>
          rw [List.flatMap_cons, meaning]
          split
          · next hspecial => rw [List.singleton_append, Literal.escape, if_pos hspecial]
          · rw [List.cons_append, Literal.escape, if_pos (.inr rfl)]

/-- Where `respell` writes a unit by itself, the unit does not shrink. -/
theorem not_shrinks {u : LiteralUnit}
    (h : ∀ c tail, u = escaped '\\' → units = plain c :: tail → False) :
    ∀ v ∈ units.head?, ¬ u.Shrinks v := by
  rintro v hv ⟨rfl, c, rfl⟩
  obtain ⟨tail, htail⟩ := List.head?_eq_some_iff.1 hv
  exact h c tail rfl htail

theorem escape_flatMap (h : ∀ u ∈ units, u.Fits '"') :
    Literal.escape (units.flatMap meaning) = respell units := by
  fun_induction respell units with
  | case1 c rest ih =>
      obtain ⟨-, hrest⟩ := List.forall_mem_cons.1 h
      obtain ⟨⟨hbackslash, hquote⟩, hrest⟩ := List.forall_mem_cons.1 hrest
      have hc : ¬ (c = '"' ∨ c = '\\') := not_or.2 ⟨hquote, hbackslash⟩
      change Literal.escape ('\\' :: c :: rest.flatMap meaning) = _
      rw [Literal.escape, if_neg hc, Literal.escape_cons hquote hbackslash, ih hrest]
  | case2 u rest hlast ih =>
      obtain ⟨hfits, hrest⟩ := List.forall_mem_cons.1 h
      rw [List.flatMap_cons, ← ih hrest]
      cases u with
      | plain c => exact Literal.escape_cons hfits.2 hfits.1
      | escaped c =>
          by_cases hbackslash : c = '\\'
          · subst hbackslash
            exact escape_backslash (not_shrinks hlast)
          · by_cases hquote : c = '"'
            · subst hquote
              rfl
            · have hc : ¬ (c = '"' ∨ c = '\\') := not_or.2 ⟨hquote, hbackslash⟩
              rw [meaning, if_neg hc]
              change Literal.escape ('\\' :: c :: rest.flatMap meaning) = _
              rw [Literal.escape, if_neg hc, Literal.escape_cons hquote hbackslash]
              rfl
  | case3 => rfl

/-- Units come back as they are unless one of them shrinks. -/
theorem respell_eq_iff (h : ∀ u ∈ units, u.Fits '"') :
    respell units = units.flatMap text ↔ units.IsChain fun u v => ¬ u.Shrinks v := by
  fun_induction respell units with
  | case1 c rest ih =>
      obtain ⟨-, hrest⟩ := List.forall_mem_cons.1 h
      obtain ⟨hbackslash, -⟩ := (List.forall_mem_cons.1 hrest).1
      constructor
      · intro heq
        obtain ⟨-, heq⟩ := List.cons.inj heq
        exact absurd (List.cons.inj heq).1 hbackslash
      · intro hchain
        exact absurd ⟨rfl, c, rfl⟩ (List.isChain_cons_cons.1 hchain).1
  | case2 u rest hlast ih =>
      rw [List.flatMap_cons, List.append_cancel_left_eq, ih (List.forall_mem_cons.1 h).2,
        List.isChain_cons]
      exact (and_iff_right (not_shrinks hlast)).symm
  | case3 => simp

end LiteralUnit

/-- What a literal is written as once it has been read. -/
def Literal.rewrite (written : List Char) : List Char :=
  (Literal.parse (String.ofList written)).render

theorem Literal.rewrite_quoted {units : List LiteralUnit} (h : ∀ u ∈ units, u.Fits '"') :
    rewrite ('"' :: units.flatMap LiteralUnit.text ++ ['"']) =
      '"' :: LiteralUnit.respell units ++ ['"'] := by
  rw [rewrite, parse_quoted, LiteralUnit.unescape_flatMap h, render, String.toList_ofList,
    LiteralUnit.escape_flatMap h]

theorem Literal.rewrite_of_head {text : List Char} (h : ∀ c ∈ text.head?, c ≠ '"') :
    rewrite text = text := by
  rw [rewrite, parse_of_head h, render, String.toList_ofList]

/-! ## The quoted literals of a text -/

/-- The quoted literals of a text, in their order. A literal ends where the scan says. -/
def quotedLiterals : List Char → List (List Char)
  | [] => []
  | c :: rest =>
    match Delimiter.scan (c :: rest) 0 with
    | .error _ => quotedLiterals rest
    | .ok last =>
      if c = '"' then (c :: rest.take last) :: quotedLiterals (rest.drop last)
      else quotedLiterals (rest.drop last)
termination_by text => text.length
decreasing_by
  all_goals
    simp only [List.length_cons, List.length_drop]
    omega

/-- The whole text is one quoted literal, as the scan finds it. -/
def Delimiter.IsQuoted (text : List Char) : Prop :=
  text.head? = some '"' ∧ Delimiter.scan text 0 = .ok (text.length - 1)

theorem Delimiter.begins_quote_of_scan {rest : List Char} {last : Nat}
    (h : scan ('"' :: rest) 0 = .ok last) :
    ∃ units : List LiteralUnit, (∀ u ∈ units, u.Fits '"') ∧
      '"' :: rest.take last = '"' :: units.flatMap LiteralUnit.text ++ ['"'] ∧
      last = (units.flatMap LiteralUnit.text).length + 1 := by
  obtain ⟨kind, units, flags, hbegins⟩ := begins_of_scan h
  have hlast := Except.ok.inj ((scan_of_begins hbegins).symm.trans h)
  obtain ⟨-, -, hextract⟩ := extract_of_scan h hbegins
  rw [List.drop_zero] at hbegins
  cases hbegins with
  | quote hunits =>
      refine ⟨units, hunits, ?_, ?_⟩
      · simpa [List.extract_eq_take_drop, toChar] using hextract
      · simpa [Nat.add_comm] using hlast.symm

theorem Delimiter.isQuoted_iff {text : List Char} :
    IsQuoted text ↔ ∃ units : List LiteralUnit, (∀ u ∈ units, u.Fits '"') ∧
      text = '"' :: units.flatMap LiteralUnit.text ++ ['"'] := by
  constructor
  · rintro ⟨hhead, hscan⟩
    obtain ⟨rest, rfl⟩ := List.head?_eq_some_iff.1 hhead
    obtain ⟨units, hunits, htext, -⟩ := begins_quote_of_scan hscan
    rw [List.length_cons, Nat.add_sub_cancel, List.take_length] at htext
    exact ⟨units, hunits, htext⟩
  · rintro ⟨units, hunits, rfl⟩
    have hbegins : Begins .quote units [] ('"' :: units.flatMap LiteralUnit.text ++ ['"']) :=
      .quote hunits
    refine ⟨rfl, (scan_of_begins hbegins).trans ?_⟩
    simp [Nat.add_comm]

theorem isQuoted_of_mem {text q : List Char} (h : q ∈ quotedLiterals text) :
    Delimiter.IsQuoted q := by
  fun_induction quotedLiterals text with
  | case1 => contradiction
  | case2 c rest error hscan ih => exact ih h
  | case3 rest last hscan ih =>
      obtain rfl | h := List.mem_cons.1 h
      · obtain ⟨units, hunits, htext, -⟩ := Delimiter.begins_quote_of_scan hscan
        exact Delimiter.isQuoted_iff.2 ⟨units, hunits, htext⟩
      · exact ih h
  | case4 c rest last hscan hquote ih => exact ih h

theorem quotedLiterals_cons {c : Char} (hc : c ≠ '"' ∧ c ≠ '/') (rest : List Char) :
    quotedLiterals (c :: rest) = quotedLiterals rest := by
  have hscan : Delimiter.scan (c :: rest) 0 = .error (.atPosition (.unexpected c) (c :: rest) 0) :=
    Delimiter.scan_eq_error_iff.2 (.opener rfl hc.1 hc.2)
  rw [quotedLiterals, hscan]

/-- The quoted literals in a value: itself, or none. -/
def Outline.Value.literals : Value → List (List Char)
  | .quoted body _ => ['"' :: body ++ ['"']]
  | .bare _ | .regex _ _ _ _ _ => []

theorem Literal.rewrite_of_unquoted {value : Outline.Value} (h : value.literals = []) :
    rewrite value.text = value.text := by
  apply rewrite_of_head
  apply Value.head_ne_quote
  rintro body units_body rfl
  contradiction

theorem quotedLiterals_literal {value : Outline.Value} {rest : List Char}
    (hliteral : value.isLiteral = true) (hrest : value.EndsBefore rest) :
    quotedLiterals (value.text ++ rest) = value.literals ++ quotedLiterals rest := by
  obtain ⟨opener, tail, htext, -, hspan⟩ :=
    Value.span_text hliteral hrest (value.text ++ rest) 0
  have hscan : Delimiter.scan (opener :: (tail ++ rest)) 0 = .ok tail.length := by
    rw [htext, List.cons_append] at hspan
    rw [Delimiter.scan_of_drop rfl, hspan]
    exact congrArg Except.ok (Nat.zero_add _)
  rw [htext, List.cons_append, quotedLiterals, hscan]
  dsimp only
  rw [List.take_left, List.drop_left, ← htext]
  cases value with
  | bare token => contradiction
  | quoted body units_body =>
      obtain ⟨rfl, -⟩ := List.cons.inj htext
      rfl
  | regex body flags units_body body_ne_nil flags_subset =>
      obtain ⟨rfl, -⟩ := List.cons.inj htext
      rfl

/-- Whatever follows the text, its own literals come first and are these. -/
def Quotes (text : List Char) (literals : List (List Char)) : Prop :=
  ∀ rest, quotedLiterals (text ++ rest) = literals ++ quotedLiterals rest

namespace Quotes

variable {text other : List Char} {literals others : List (List Char)}

theorem eq (h : Quotes text literals) : quotedLiterals text = literals := by
  have hend := h []
  rwa [List.append_nil, quotedLiterals, List.append_nil] at hend

theorem append (h : Quotes text literals) (hother : Quotes other others) :
    Quotes (text ++ other) (literals ++ others) := by
  intro rest
  rw [List.append_assoc, h, hother, List.append_assoc]

theorem of_undelimited (h : Undelimited text) : Quotes text [] := by
  intro rest
  induction text with
  | nil => rfl
  | cons c text ih =>
      obtain ⟨hc, htext⟩ := List.forall_mem_cons.1 h
      rw [List.cons_append, quotedLiterals_cons hc, ih htext]

/-- Flags in what follows belong to the regular expression, but they are no delimiters. -/
theorem of_slashes {body : List Char} (hbody : Units '/' body) (hne : body ≠ []) :
    Quotes ('/' :: body ++ ['/']) [] := by
  intro rest
  let flags := rest.takeWhile literalFlags.contains
  let behind := rest.dropWhile literalFlags.contains
  have hflags : ∀ c ∈ flags, c ∈ literalFlags := fun _ hc => mem_literalFlags_of_mem_takeWhile hc
  have hbehind : StartsWithoutFlag behind := startsWithoutFlag_dropWhile rest
  have hregex : quotedLiterals ((Value.regex body flags hbody hne hflags).text ++ behind) =
      quotedLiterals behind := quotedLiterals_literal rfl hbehind
  have hrest : rest = flags ++ behind := List.takeWhile_append_dropWhile.symm
  have hskip : quotedLiterals rest = quotedLiterals behind :=
    hrest ▸ of_undelimited (.of_flags hflags) behind
  rw [List.nil_append, hskip, ← hregex, Value.text]
  simp [hrest]

theorem value (value : Outline.Value) : Quotes value.text value.literals := by
  cases value with
  | bare token =>
      exact of_undelimited (.of_tokenChars token.allowed_of_mem)
  | quoted body units_body => exact fun rest => quotedLiterals_literal rfl trivial
  | regex body flags units_body body_ne_nil flags_subset =>
      have hbody := of_slashes units_body body_ne_nil
      have hflags : Quotes flags [] := of_undelimited (.of_flags flags_subset)
      simpa [Value.text, Value.literals] using hbody.append hflags

end Quotes

end DynTypes
