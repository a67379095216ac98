import DynTypes.Proofs.Reading.Literals
import DynTypes.Regex.Builtin
/-!
# Slashes in regular expressions

Between the slashes of a literal a slash needs a backslash in front of it, which is no part of the
expression. Taking these backslashes away again goes by units: it changes no unit but an escaped
slash, and what is left of that makes no new unit with its neighbours. So every expression has a
literal, and it is read as it was meant.
-/

namespace DynTypes

namespace LiteralUnit

/-- A text is read from its left in units. A backslash at its very end has nothing to hide and is
left over. -/
structure Reads (text : List Char) (units : List LiteralUnit) (cut : List Char) : Prop where
  text_eq : text = units.flatMap LiteralUnit.text ++ cut
  ne_backslash : ∀ u ∈ units, u ≠ plain '\\'
  cut_eq : cut = [] ∨ cut = ['\\']

/-- The unit when a slash has lost the backslash in front of it. -/
def stripped : LiteralUnit → LiteralUnit
  | plain c => plain c
  | escaped c => if c = '/' then plain c else escaped c

/-- The unit when a slash has got a backslash in front of it. -/
def guarded : LiteralUnit → LiteralUnit
  | plain c => if c = '/' then escaped c else plain c
  | escaped c => escaped c

variable {text cut : List Char} {units : List LiteralUnit}

theorem Reads.cons {u : LiteralUnit} (hu : u ≠ plain '\\') (h : Reads text units cut) :
    Reads (u.text ++ text) (u :: units) cut where
  text_eq := by rw [h.text_eq, List.flatMap_cons, List.append_assoc]
  ne_backslash := List.forall_mem_cons.2 ⟨hu, h.ne_backslash⟩
  cut_eq := h.cut_eq

theorem exists_reads (text : List Char) : ∃ units cut, Reads text units cut := by
  fun_induction Pattern.stripSlashEscapes text with
  | case1 => exact ⟨[], [], rfl, List.forall_mem_nil _, .inl rfl⟩
  | case2 rest ih =>
      obtain ⟨units, cut, h⟩ := ih
      exact ⟨escaped '/' :: units, cut, h.cons (u := escaped '/') (by simp)⟩
  | case3 c rest hc ih =>
      obtain ⟨units, cut, h⟩ := ih
      exact ⟨escaped c :: units, cut, h.cons (u := escaped c) (by simp)⟩
  | case4 c rest hslash hpair ih =>
      by_cases hc : c = '\\'
      · subst hc
        cases rest with
        | nil => exact ⟨[], ['\\'], rfl, List.forall_mem_nil _, .inr rfl⟩
        | cons d rest => exact (hpair d rest rfl rfl).elim
      · obtain ⟨units, cut, h⟩ := ih
        exact ⟨plain c :: units, cut, h.cons (u := plain c) (by simpa using hc)⟩

theorem stripped_stripped (u : LiteralUnit) : u.stripped.stripped = u.stripped := by
  cases u with
  | plain c => rfl
  | escaped c =>
      by_cases hc : c = '/'
      · rw [stripped, if_pos hc]
        rfl
      · rw [stripped, if_neg hc, stripped, if_neg hc]

theorem stripped_guarded {u : LiteralUnit} (hu : u ≠ escaped '/') : u.guarded.stripped = u := by
  cases u with
  | plain c =>
      by_cases hc : c = '/'
      · rw [guarded, if_pos hc, stripped, if_pos hc]
      · rw [guarded, if_neg hc]
        rfl
  | escaped c => exact if_neg fun hc => hu (congrArg escaped hc)

theorem guarded_fits {u : LiteralUnit} (hu : u ≠ plain '\\') : u.guarded.Fits '/' := by
  cases u with
  | plain c =>
      by_cases hc : c = '/'
      · rw [guarded, if_pos hc]
        trivial
      · rw [guarded, if_neg hc]
        exact ⟨fun hbackslash => hu (congrArg plain hbackslash), hc⟩
  | escaped c => trivial

theorem stripped_ne_backslash {u : LiteralUnit} (hu : u ≠ plain '\\') :
    u.stripped ≠ plain '\\' := by
  cases u with
  | plain c => exact hu
  | escaped c =>
      by_cases hc : c = '/'
      · rw [stripped, if_pos hc, hc]
        simp
      · rw [stripped, if_neg hc]
        simp

theorem ne_backslash_of_fits {closing : Char} {u : LiteralUnit} (hu : u.Fits closing) :
    u ≠ plain '\\' := by
  rintro rfl
  exact hu.1 rfl

end LiteralUnit

namespace Pattern

open LiteralUnit (stripped guarded)

variable {text cut flags : List Char} {units : List LiteralUnit}

/-- How an expression is written between slashes. -/
def escapeSlashes (text : List Char) : List Char :=
  text.flatMap fun c => if c = '/' then ['\\', '/'] else [c]

theorem escapeSlashes_text {u : LiteralUnit} (hu : u ≠ .escaped '/') :
    escapeSlashes u.text = u.guarded.text := by
  cases u with
  | plain c =>
      by_cases hc : c = '/'
      · subst hc
        rfl
      · simp [escapeSlashes, LiteralUnit.text, guarded, hc]
  | escaped c =>
      have hc : c ≠ '/' := fun hslash => hu (congrArg _ hslash)
      simp [escapeSlashes, LiteralUnit.text, guarded, hc]

/-- What is written is read in the same units, each of them guarded. -/
theorem reads_escapeSlashes (h : LiteralUnit.Reads text units [])
    (hslash : ∀ u ∈ units, u ≠ .escaped '/') :
    LiteralUnit.Reads (escapeSlashes text) (units.map guarded) [] where
  text_eq := by
    rw [h.text_eq, List.append_nil, List.append_nil, escapeSlashes, List.flatMap_assoc,
      List.flatMap_map]
    exact List.flatMap_congr fun u hu => escapeSlashes_text (hslash u hu)
  ne_backslash := List.forall_mem_map.2 fun u hu =>
    LiteralUnit.ne_backslash_of_fits (LiteralUnit.guarded_fits (h.ne_backslash u hu))
  cut_eq := .inl rfl

theorem isRegex_escapeSlashes (hne : text ≠ []) (h : LiteralUnit.Reads text units [])
    (hslash : ∀ u ∈ units, u ≠ .escaped '/') (hflags : ∀ c ∈ flags, c ∈ literalFlags) :
    IsRegex (escapeSlashes text) flags := by
  have hunits : units.map guarded ≠ [] := by
    intro hnil
    rw [h.text_eq, List.map_eq_nil_iff.1 hnil] at hne
    exact hne rfl
  have hfits : ∀ u ∈ units.map guarded, u.Fits '/' :=
    List.forall_mem_map.2 fun u hu => LiteralUnit.guarded_fits (h.ne_backslash u hu)
  rw [(reads_escapeSlashes h hslash).text_eq, List.append_nil]
  exact LiteralUnit.isRegex_flatMap hfits hunits hflags

theorem stripSlashEscapes_append {u : LiteralUnit} (hu : u ≠ .plain '\\') (rest : List Char) :
    stripSlashEscapes (u.text ++ rest) = u.stripped.text ++ stripSlashEscapes rest := by
  cases u with
  | plain c =>
      have hc : c ≠ '\\' := fun hbackslash => hu (congrArg _ hbackslash)
      change stripSlashEscapes (c :: rest) = c :: stripSlashEscapes rest
      rw [stripSlashEscapes]
      · exact fun _ h => absurd h hc
      · exact fun _ _ h => absurd h hc
  | escaped c =>
      by_cases hc : c = '/'
      · subst hc
        rfl
      · rw [stripped, if_neg hc]
        change stripSlashEscapes ('\\' :: c :: rest) = '\\' :: c :: stripSlashEscapes rest
        rw [stripSlashEscapes]
        exact fun h => hc h

/-- Every unit but an escaped slash stays as it is. -/
theorem stripSlashEscapes_of_reads (h : LiteralUnit.Reads text units cut) :
    stripSlashEscapes text = (units.map stripped).flatMap LiteralUnit.text ++ cut := by
  obtain ⟨rfl, hunits, hcut⟩ := h
  induction units with
  | nil => rcases hcut with rfl | rfl <;> rfl
  | cons u units ih =>
      obtain ⟨hu, hrest⟩ := List.forall_mem_cons.1 hunits
      rw [List.flatMap_cons, List.append_assoc, stripSlashEscapes_append hu, ih hrest,
        List.map_cons, List.flatMap_cons, List.append_assoc]

/-- The units that are left are those that the text is then read in. -/
theorem reads_stripSlashEscapes (h : LiteralUnit.Reads text units cut) :
    LiteralUnit.Reads (stripSlashEscapes text) (units.map stripped) cut where
  text_eq := stripSlashEscapes_of_reads h
  ne_backslash := List.forall_mem_map.2 fun u hu =>
    LiteralUnit.stripped_ne_backslash (h.ne_backslash u hu)
  cut_eq := h.cut_eq

theorem stripSlashEscapes_stripSlashEscapes (text : List Char) :
    stripSlashEscapes (stripSlashEscapes text) = stripSlashEscapes text := by
  obtain ⟨units, cut, h⟩ := LiteralUnit.exists_reads text
  have hunits : (units.map stripped).map stripped = units.map stripped := by
    rw [List.map_map]
    exact List.map_congr_left fun u _ => u.stripped_stripped
  rw [stripSlashEscapes_of_reads (reads_stripSlashEscapes h), hunits, stripSlashEscapes_of_reads h]

/-- The expression is what is left of the way it is written. -/
theorem stripSlashEscapes_escapeSlashes (h : LiteralUnit.Reads text units [])
    (hslash : ∀ u ∈ units, u ≠ .escaped '/') : stripSlashEscapes (escapeSlashes text) = text := by
  have hunits : (units.map guarded).map stripped = units := by
    rw [List.map_map]
    exact (List.map_congr_left fun u hu =>
      LiteralUnit.stripped_guarded (hslash u hu)).trans (List.map_id units)
  rw [stripSlashEscapes_of_reads (reads_escapeSlashes h hslash), hunits, ← h.text_eq]

/-- A literal that is the whole text is scanned to the last character. -/
theorem scan_regex {body : List Char} (h : IsRegex body flags) :
    Delimiter.scan ('/' :: body ++ '/' :: flags) 0 =
      .ok (('/' :: body ++ '/' :: flags).length - 1) := by
  have hrest : Outline.StartsWithoutFlag [] := by simp [Outline.StartsWithoutFlag]
  let value := Outline.Value.regex body flags h.units_body h.body_ne_nil h.flags_subset
  have hliteral : value.isLiteral = true := rfl
  obtain ⟨opener, tail, htext, -, hspan⟩ := value.span_text hliteral hrest value.text 0
  rw [List.append_nil] at hspan
  change Delimiter.scan value.text 0 = .ok (value.text.length - 1)
  have hdrop : value.text.drop 0 = opener :: tail := htext
  rw [Delimiter.scan_of_drop hdrop, hspan, htext]
  change Except.ok (0 + tail.length) = Except.ok ((opener :: tail).length - 1)
  rw [Nat.zero_add, List.length_cons, Nat.add_sub_cancel]

end Pattern

section

variable [RegexEngine]

namespace Pattern

open LiteralUnit (stripped guarded)

variable {text cut flags : List Char} {units : List LiteralUnit}

theorem map_regex_ofParts (body flags : String) :
    (ofParts body flags).map Pattern.regex = compile body.toList flags.toList := by
  unfold ofParts
  split
  · next regex h => exact h.symm
  · next h => exact h.symm

/-- Every regular expression can be written as a literal. In front of each slash goes a backslash;
then the scan takes the whole literal, it is cut into the same body and flags, and the body is read
as the expression. Of any text, reading takes away the backslash in front of slashes, unit by unit,
and a second time it changes nothing. -/
theorem literal_of_escapeSlashes :
    (∀ (text flags : List Char) (units : List LiteralUnit), text ≠ [] →
      LiteralUnit.Reads text units [] → (∀ u ∈ units, u ≠ .escaped '/') →
      (∀ c ∈ flags, c ∈ literalFlags) →
        let body := escapeSlashes text
        let literal := '/' :: body ++ '/' :: flags
        Delimiter.scan literal 0 = .ok (literal.length - 1) ∧
        cutLiteral? literal = some (body, flags) ∧
        stripSlashEscapes body = text ∧
        (ofParts (String.ofList body) (String.ofList flags)).map Pattern.regex =
          RegexEngine.compile
            { ignoreCase := flags.contains 'i'
              multiLine := flags.contains 'm'
              dotAll := flags.contains 's'
              extended := flags.contains 'x' }
            text) ∧
    ∀ text : List Char,
      stripSlashEscapes (stripSlashEscapes text) = stripSlashEscapes text ∧
      (∃ units cut, LiteralUnit.Reads text units cut) ∧
      ∀ units cut, LiteralUnit.Reads text units cut →
        stripSlashEscapes text = (units.map stripped).flatMap LiteralUnit.text ++ cut := by
  constructor
  · intro text flags units hne hreads hslash hflags body literal
    have hregex : IsRegex body flags := isRegex_escapeSlashes hne hreads hslash hflags
    have hstrip : stripSlashEscapes body = text := stripSlashEscapes_escapeSlashes hreads hslash
    refine ⟨scan_regex hregex, cutLiteral?_regex hregex, hstrip, ?_⟩
    rw [map_regex_ofParts, String.toList_ofList, String.toList_ofList, compile, hstrip]
  · intro text
    exact ⟨stripSlashEscapes_stripSlashEscapes text, LiteralUnit.exists_reads text,
      fun _ _ => stripSlashEscapes_of_reads⟩

end Pattern

end

namespace Pattern

/-- A doubled backslash in front of a slash, which it does not escape. -/
theorem literal_of_escapeSlashes_doubled :
    let text : List Char := ['\\', '\\', '/', '\\', 'd']
    let body : List Char := ['\\', '\\', '\\', '/', '\\', 'd']
    let flags : List Char := ['i', 'x']
    let units : List LiteralUnit := [.escaped '\\', .plain '/', .escaped 'd']
    text ≠ [] ∧ LiteralUnit.Reads text units [] ∧ (∀ u ∈ units, u ≠ .escaped '/') ∧
      (∀ c ∈ flags, c ∈ literalFlags) ∧
      Delimiter.scan ('/' :: body ++ '/' :: flags) 0 = .ok 9 ∧
      cutLiteral? ('/' :: body ++ '/' :: flags) = some (body, flags) ∧
      stripSlashEscapes body = text ∧
      (ofParts (String.ofList body) (String.ofList flags)).map Pattern.regex =
        RegexEngine.compile { ignoreCase := true, extended := true } text ∧
      stripSlashEscapes (stripSlashEscapes body) = text := by
  intro text body flags units
  have hreads : LiteralUnit.Reads text units [] :=
    ⟨rfl, by simp [units], .inl rfl⟩
  have hslash : ∀ u ∈ units, u ≠ .escaped '/' := by simp [units]
  have hflags : ∀ c ∈ flags, c ∈ literalFlags := by simp [flags, literalFlags]
  obtain ⟨hscan, hcut, hstrip, hregex⟩ :=
    literal_of_escapeSlashes.1 text flags units (List.cons_ne_nil _ _) hreads hslash hflags
  refine ⟨List.cons_ne_nil _ _, hreads, hslash, hflags, hscan, hcut, hstrip, hregex, ?_⟩
  rw [(literal_of_escapeSlashes.2 body).1]
  exact hstrip

end Pattern

end DynTypes
