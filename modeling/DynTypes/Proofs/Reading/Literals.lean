import DynTypes.Proofs.Reading.RoundTrip
/-!
# Where literals are cut

Three readers have to find the end of a literal: the scan looks for the first delimiter that no
backslash hides, a regular expression is cut at its last slash, and a quoted text loses the quotes
at its ends. They agree, because flags are no slashes and every backslash takes a character with it.
-/

namespace DynTypes

open Outline (Units StartsWithoutFlag)

/-! ## Units -/

/-- What a literal is made of between its delimiters. -/
inductive LiteralUnit where
  | plain (c : Char)
  /-- A character behind a backslash. -/
  | escaped (c : Char)

namespace LiteralUnit

def text : LiteralUnit → List Char
  | plain c => [c]
  | escaped c => ['\\', c]

/-- What a unit of a quoted text stands for: only a quote and a backslash lose the backslash in
front of them. -/
def meaning : LiteralUnit → List Char
  | plain c => [c]
  | escaped c => if c = '"' ∨ c = '\\' then [c] else ['\\', c]

/-- Whether the unit neither closes the literal nor hides the character behind it. -/
def Fits (closing : Char) : LiteralUnit → Prop
  | plain c => c ≠ '\\' ∧ c ≠ closing
  | escaped _ => True

variable {closing : Char} {units : List LiteralUnit}

theorem units_flatMap (h : ∀ u ∈ units, u.Fits closing) : Units closing (units.flatMap text) := by
  induction units with
  | nil => exact .nil
  | cons u units ih =>
      obtain ⟨hfits, hrest⟩ := List.forall_mem_cons.1 h
      cases u with
      | plain c => exact .plain hfits.1 hfits.2 (ih hrest)
      | escaped c => exact .escaped (ih hrest)

theorem exists_of_units {body : List Char} (h : Units closing body) :
    ∃ units : List LiteralUnit, (∀ u ∈ units, u.Fits closing) ∧ body = units.flatMap text := by
  induction h with
  | nil => exact ⟨[], List.forall_mem_nil _, rfl⟩
  | @plain c _ hbackslash hclosing _ ih =>
      obtain ⟨units, hunits, rfl⟩ := ih
      exact ⟨plain c :: units, List.forall_mem_cons.2 ⟨⟨hbackslash, hclosing⟩, hunits⟩, rfl⟩
  | @escaped c _ _ ih =>
      obtain ⟨units, hunits, rfl⟩ := ih
      exact ⟨escaped c :: units, List.forall_mem_cons.2 ⟨trivial, hunits⟩, rfl⟩

theorem isRegex_flatMap {flags : List Char} (h : ∀ u ∈ units, u.Fits '/') (hne : units ≠ [])
    (hflags : ∀ c ∈ flags, c ∈ literalFlags) : IsRegex (units.flatMap text) flags where
  units_body := units_flatMap h
  body_ne_nil := by
    obtain ⟨u, units, rfl⟩ := List.exists_cons_of_ne_nil hne
    cases u <;> simp [text]
  flags_subset := hflags

theorem unescape_flatMap (h : ∀ u ∈ units, u.Fits '"') :
    Literal.unescape (units.flatMap text) = units.flatMap meaning := by
  induction units with
  | nil => rfl
  | cons u units ih =>
      obtain ⟨hfits, hrest⟩ := List.forall_mem_cons.1 h
      rw [List.flatMap_cons, List.flatMap_cons, ← ih hrest]
      cases u with
      | plain c => exact Literal.unescape_cons hfits.1
      | escaped c =>
          by_cases hspecial : c = '"' ∨ c = '\\'
          · rw [meaning, if_pos hspecial]
            rcases hspecial with rfl | rfl <;> rfl
          · obtain ⟨hquote, hbackslash⟩ := not_or.1 hspecial
            rw [meaning, if_neg hspecial]
            exact (Literal.unescape_backslash hquote hbackslash).trans
              (congrArg _ (Literal.unescape_cons hbackslash))

end LiteralUnit

/-! ## What the scan finds -/

namespace Delimiter

/-- A text begins with a literal. Behind a regular expression all flags belong to it. -/
inductive Begins : Delimiter → List LiteralUnit → List Char → List Char → Prop where
  | quote {units : List LiteralUnit} {rest : List Char} (hunits : ∀ u ∈ units, u.Fits '"') :
      Begins .quote units [] ('"' :: units.flatMap LiteralUnit.text ++ '"' :: rest)
  | slash {units : List LiteralUnit} {flags rest : List Char} (hunits : ∀ u ∈ units, u.Fits '/')
      (hne : units ≠ []) (hflags : ∀ c ∈ flags, c ∈ literalFlags)
      (hrest : StartsWithoutFlag rest) :
      Begins .slash units flags ('/' :: units.flatMap LiteralUnit.text ++ '/' :: flags ++ rest)

/-- Why no literal is found. The units of one that is never closed run to the end of the text, where
the last of them may be cut short. -/
inductive Refuses (text : List Char) (start : Nat) : GrammarError → Prop where
  | outside (h : text.length ≤ start) : Refuses text start (.atEnd .illegalEnd text)
  | opener {c : Char} {rest : List Char} (h : text.drop start = c :: rest) (hquote : c ≠ '"')
      (hslash : c ≠ '/') : Refuses text start (.atPosition (.unexpected c) text start)
  | empty {rest : List Char} (h : text.drop start = '/' :: '/' :: rest) :
      Refuses text start (.atPosition .emptyPattern text (start + 1))
  | unterminated {kind : Delimiter} {units : List LiteralUnit} {cut : List Char}
      (h : text.drop start = kind.toChar :: units.flatMap LiteralUnit.text ++ cut)
      (hunits : ∀ u ∈ units, u.Fits kind.toChar) (hcut : cut = [] ∨ cut = ['\\']) :
      Refuses text start (.atEnd (.unterminated kind.toChar) text)

theorem bodyLength?_eq_none_iff {closing : Char} {behind : List Char} :
    bodyLength? closing behind = none ↔
      ∃ body cut, behind = body ++ cut ∧ Units closing body ∧ (cut = [] ∨ cut = ['\\']) := by
  constructor
  · intro h
    fun_induction bodyLength? closing behind with
    | case1 => exact ⟨[], [], rfl, .nil, .inl rfl⟩
    | case2 => exact ⟨[], ['\\'], rfl, .nil, .inr rfl⟩
    | case3 c rest ih =>
        obtain ⟨body, cut, rfl, hbody, hcut⟩ := ih (by simpa using h)
        exact ⟨'\\' :: c :: body, cut, rfl, .escaped hbody, hcut⟩
    | case4 => contradiction
    | case5 c rest hlone hpair hne ih =>
        obtain ⟨body, cut, rfl, hbody, hcut⟩ := ih (by simpa using h)
        exact ⟨c :: body, cut, rfl, .plain (Outline.ne_backslash hlone hpair) hne hbody, hcut⟩
  · rintro ⟨body, cut, rfl, hbody, hcut⟩
    induction hbody with
    | nil => rcases hcut with rfl | rfl <;> rfl
    | plain hbackslash hclosing _ ih =>
        rw [List.cons_append, bodyLength?, if_neg hclosing, ih]
        · rfl
        · exact fun h => absurd h hbackslash
        · exact fun _ _ h => absurd h hbackslash
    | escaped _ ih =>
        simp only [List.cons_append, bodyLength?, ih]
        rfl

section Scan

variable {text : List Char} {start last : Nat} {kind : Delimiter} {units : List LiteralUnit}
  {flags : List Char}

theorem scan_of_drop {opener : Char} {rest : List Char} (h : text.drop start = opener :: rest) :
    scan text start = (span text start opener rest).map (start + ·) := by
  rw [scan, h]

/-- The literal that a text begins with is a value of the grammar. -/
theorem Begins.exists_value {behind : List Char} (h : Begins kind units flags behind) :
    ∃ (value : Outline.Value) (rest : List Char), value.isLiteral = true ∧
      behind = value.text ++ rest ∧ value.EndsBefore rest ∧
      value.text.length = (units.flatMap LiteralUnit.text).length + flags.length + 2 := by
  cases h with
  | @quote units rest hunits =>
      refine ⟨.quoted _ (LiteralUnit.units_flatMap hunits), rest, rfl, ?_, trivial, ?_⟩
      · simp [Outline.Value.text]
      · simp [Outline.Value.text]
  | @slash units flags rest hunits hne hflags hrest =>
      have hregex := LiteralUnit.isRegex_flatMap hunits hne hflags
      refine ⟨.regex _ flags hregex.units_body hregex.body_ne_nil hflags, rest, rfl, rfl, hrest, ?_⟩
      simp only [Outline.Value.text, List.length_append, List.length_cons]
      omega

theorem scan_of_begins (h : Begins kind units flags (text.drop start)) :
    scan text start =
      .ok (start + (units.flatMap LiteralUnit.text).length + flags.length + 1) := by
  obtain ⟨value, rest, hliteral, hdrop, hrest, hlength⟩ := h.exists_value
  obtain ⟨opener, tail, htext, -, hspan⟩ := Outline.Value.span_text hliteral hrest text start
  rw [htext, List.cons_append] at hdrop
  rw [htext, List.length_cons] at hlength
  rw [scan_of_drop hdrop, hspan]
  change Except.ok (start + tail.length) = _
  congr 1
  omega

theorem begins_of_scan (h : scan text start = .ok last) :
    ∃ kind units flags, Begins kind units flags (text.drop start) := by
  cases hdrop : text.drop start with
  | nil =>
      rw [scan, hdrop] at h
      contradiction
  | cons opener behind =>
      rw [scan_of_drop hdrop] at h
      cases hspan : span text start opener behind with
      | error error =>
          rw [hspan] at h
          contradiction
      | ok used =>
          obtain ⟨value, tail, rest, hliteral, htext, rfl, -, hrest⟩ :=
            Outline.exists_value_of_span hspan
          rw [← List.cons_append, ← htext]
          cases value with
          | bare token => contradiction
          | quoted body units_body =>
              obtain ⟨units, hunits, rfl⟩ := LiteralUnit.exists_of_units units_body
              refine ⟨.quote, units, [], ?_⟩
              have hbegins : Begins .quote units []
                  ('"' :: units.flatMap LiteralUnit.text ++ '"' :: rest) := .quote hunits
              simpa [Outline.Value.text] using hbegins
          | regex body flags units_body body_ne_nil flags_subset =>
              obtain ⟨units, hunits, rfl⟩ := LiteralUnit.exists_of_units units_body
              have hne : units ≠ [] := by
                rintro rfl
                exact body_ne_nil rfl
              exact ⟨.slash, units, flags, .slash hunits hne flags_subset hrest⟩

theorem refuses_of_span {opener : Char} {behind : List Char} {error : GrammarError}
    (hdrop : text.drop start = opener :: behind)
    (h : span text start opener behind = .error error) : Refuses text start error := by
  unfold span at h
  split at h
  · next hnone =>
    cases h
    refine .opener hdrop ?_ ?_
    · rintro rfl
      contradiction
    · rintro rfl
      contradiction
  · next kind hkind =>
    obtain rfl := eq_toChar_of_ofChar? hkind
    split at h
    · next hnone =>
      cases h
      obtain ⟨body, cut, rfl, hbody, hcut⟩ := bodyLength?_eq_none_iff.1 hnone
      obtain ⟨units, hunits, rfl⟩ := LiteralUnit.exists_of_units hbody
      exact .unterminated hdrop hunits hcut
    · contradiction
    · next hzero =>
      cases h
      obtain ⟨body, rest, rfl, -, hbody⟩ := Outline.exists_units_of_bodyLength? hzero
      obtain rfl := List.length_eq_zero_iff.1 hbody
      exact .empty hdrop
    · contradiction

theorem scan_eq_error_iff {error : GrammarError} :
    scan text start = .error error ↔ Refuses text start error := by
  constructor
  · intro h
    cases hdrop : text.drop start with
    | nil =>
        rw [scan, hdrop] at h
        cases h
        exact .outside (List.drop_eq_nil_iff.1 hdrop)
    | cons opener behind =>
        rw [scan_of_drop hdrop] at h
        cases hspan : span text start opener behind with
        | ok used =>
            rw [hspan] at h
            contradiction
        | error cause =>
            rw [hspan] at h
            cases h
            exact refuses_of_span hdrop hspan
  · intro h
    cases h with
    | outside h => rw [scan, List.drop_eq_nil_iff.2 h]
    | @opener c rest h hquote hslash =>
        have hnone : ofChar? c = none := by
          unfold ofChar?
          split <;> simp_all
        rw [scan_of_drop h, span, hnone]
        rfl
    | @empty rest h =>
        rw [scan_of_drop h]
        rfl
    | @unterminated kind units cut h hunits hcut =>
        have hnone : bodyLength? kind.toChar (units.flatMap LiteralUnit.text ++ cut) = none :=
          bodyLength?_eq_none_iff.2 ⟨_, cut, rfl, LiteralUnit.units_flatMap hunits, hcut⟩
        rw [List.cons_append] at h
        rw [scan_of_drop h, span, ofChar?_toChar]
        dsimp only
        rw [hnone]
        rfl

/-- The scan ends where the literal does, inside of the text. -/
theorem extract_of_scan (h : scan text start = .ok last)
    (hbegins : Begins kind units flags (text.drop start)) :
    start < last ∧ last < text.length ∧ text.extract start (last + 1) =
      kind.toChar :: units.flatMap LiteralUnit.text ++ kind.toChar :: flags := by
  have hlast := (scan_of_begins hbegins).symm.trans h
  obtain rfl := Except.ok.inj hlast
  obtain ⟨rest, hdrop⟩ : ∃ rest, text.drop start =
      (kind.toChar :: units.flatMap LiteralUnit.text ++ kind.toChar :: flags) ++ rest := by
    generalize text.drop start = behind at hbegins
    cases hbegins with
    | @quote units rest hunits => exact ⟨rest, by simp [toChar]⟩
    | @slash units flags rest hunits hne hflags hrest => exact ⟨rest, rfl⟩
  have hlength := congrArg List.length hdrop
  simp only [List.length_drop, List.length_append, List.length_cons] at hlength
  refine ⟨by omega, by omega, ?_⟩
  rw [List.extract_eq_take_drop, hdrop]
  apply List.take_left'
  simp only [List.length_append, List.length_cons]
  omega

end Scan

end Delimiter

end DynTypes
