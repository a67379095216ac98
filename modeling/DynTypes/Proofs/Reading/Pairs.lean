import DynTypes.Proofs.Definition.Words
import DynTypes.Proofs.Reading.Build
import DynTypes.TypeExpr.Parser
import Mathlib.Data.List.TakeDrop
/-!
# Reading a constraint list

`Constraints.read` collects the characters of a pair up to a comma or the closing parenthesis and
cuts the pair into its parts only then. On what an outline writes, the cut gives back the parts,
and the commas that it stops at are those between the pairs.
-/

namespace DynTypes

open Outline Text

/-! ## The characters of a pair -/

theorem trimmed_cons {c : Char} {chars : List Char} (hc : isWhiteSpace c = false)
    (hchars : ∀ d ∈ chars, isTokenChar d = true) : Trimmed (c :: chars) := by
  apply Trimmed.of_forall
  intro d hd
  obtain rfl | hd := List.mem_cons.1 hd
  · exact hc
  · exact isWhiteSpace_of_isTokenChar (hchars d hd)

/-- The first colon is the one behind the identifier, which has none itself. -/
theorem span_identifier (identifier : Word isMethodChar) (rest : List Char) :
    (identifier.chars ++ ':' :: rest).span (· != ':') = (identifier.chars, ':' :: rest) := by
  have hall : ∀ c ∈ identifier.chars, (c != ':') = true := by
    intro c hc
    have hmethod : isMethodChar c = true := identifier.allowed_of_mem c hc
    have hne : c ≠ ':' := ne_of_isMethodChar hmethod (by decide) (by decide)
    simpa using hne
  rw [List.span_eq_takeWhile_dropWhile, List.takeWhile_append_of_pos hall,
    List.dropWhile_append_of_pos hall]
  simp

namespace Constraints

variable {rest : List Char}

/-- The characters that mean nothing to a list. -/
def IsPlain (c : Char) : Prop :=
  (c ≠ ')' ∧ c ≠ ',') ∧ Delimiter.ofChar? c = none

theorem isPlain_of_isTokenChar {c : Char} (h : isTokenChar c = true) : IsPlain c := by
  have hquote : c ≠ '"' := ne_of_isTokenChar h (by decide) (by decide)
  have hslash : c ≠ '/' := ne_of_isTokenChar h (by decide) (by decide)
  refine ⟨⟨ne_of_isTokenChar h (by decide) (by decide),
    ne_of_isTokenChar h (by decide) (by decide)⟩, ?_⟩
  unfold Delimiter.ofChar?
  split
  · contradiction
  · contradiction
  · rfl

theorem isPlain_of_isWhiteSpace {c : Char} (h : isWhiteSpace c = true) : IsPlain c := by
  refine ⟨⟨?_, ?_⟩, ?_⟩
  · rintro rfl
    contradiction
  · rintro rfl
    contradiction
  · unfold Delimiter.ofChar?
    split
    · contradiction
    · contradiction
    · rfl

theorem startsWithoutFlag_append {right : List Char} (hright : Blank right)
    (hrest : StartsWithoutFlag rest) : StartsWithoutFlag (right ++ rest) := by
  cases right with
  | nil => exact hrest
  | cons c right =>
      rintro d ⟨⟩ hflag
      have hspace : isWhiteSpace c = true := hright c List.mem_cons_self
      rw [isWhiteSpace_of_mem_literalFlags hflag] at hspace
      contradiction

theorem isPlain_of_mem {left chars right : List Char} {mark : Char} (hleft : Blank left)
    (hmark : IsPlain mark) (hchars : ∀ c ∈ chars, isTokenChar c = true) (hright : Blank right) :
    ∀ c ∈ left ++ mark :: chars ++ right, IsPlain c := by
  intro c hc
  obtain hc | rfl | hc | hc : c ∈ left ∨ c = mark ∨ c ∈ chars ∨ c ∈ right := by simpa using hc
  · exact isPlain_of_isWhiteSpace (hleft c hc)
  · exact hmark
  · exact isPlain_of_isTokenChar (hchars c hc)
  · exact isPlain_of_isWhiteSpace (hright c hc)

/-- Only a value can hold characters that would mean something to a list. -/
theorem exists_parts {pair : Pair} {written : List Char} (hpair : pair.Spells written) :
    (∀ c ∈ written, IsPlain c) ∨
      ∃ (front : List Char) (value : Value) (back : List Char),
        written = front ++ value.text ++ back ∧ (∀ c ∈ front, IsPlain c) ∧ Blank back := by
  cases hpair with
  | @method name left right hleft hright =>
      have hmark : IsPlain '#' := ⟨by decide, rfl⟩
      have hchars : ∀ c ∈ name.chars, isTokenChar c = true := fun c hc =>
        isTokenChar_of_isMethodChar (name.allowed_of_mem c hc)
      exact .inl (isPlain_of_mem hleft hmark hchars hright)
  | @token word left right hleft hright =>
      have hmark : IsPlain ':' := ⟨by decide, rfl⟩
      exact .inl (isPlain_of_mem hleft hmark word.allowed_of_mem hright)
  | @value identifier value left gap right hleft hgap hright =>
      have hfront : ∀ c ∈ left ++ identifier.chars ++ ':' :: gap, IsPlain c := by
        intro c hc
        obtain hc | hc | rfl | hc : c ∈ left ∨ c ∈ identifier.chars ∨ c = ':' ∨ c ∈ gap := by
          simpa using hc
        · exact isPlain_of_isWhiteSpace (hleft c hc)
        · have hmethod : isMethodChar c = true := identifier.allowed_of_mem c hc
          exact isPlain_of_isTokenChar (isTokenChar_of_isMethodChar hmethod)
        · exact ⟨by decide, rfl⟩
        · exact isPlain_of_isWhiteSpace (hgap c hc)
      exact .inr ⟨_, value, right, rfl, hfront, hright⟩

end Constraints

variable [RegexEngine]

/-! ## A single pair -/

/-- White space around a value changes nothing. -/
theorem Constraint.parse_congr {identifier : String} {raw value : List Char}
    (h : trim raw = trim value) :
    Constraint.parse identifier (String.ofList raw) =
      Constraint.parse identifier (String.ofList value) := by
  unfold Constraint.parse
  rw [String.toList_ofList, String.toList_ofList, h]

theorem Constraint.parse_eq_ok_iff {identifier raw : String} {c : Constraint} :
    Constraint.parse identifier raw = .ok c ↔
      ∃ kind, ConstraintKind.ofKeyword? identifier = some kind ∧
        Constraint.ofKind kind (String.ofList (trim raw.toList)) = .ok c := by
  unfold Constraint.parse
  split
  · next hnone => simp [hnone]
  · next kind hkind =>
    rw [mapError_eq_ok_iff, hkind]
    simp

theorem Constraint.parse_capability (name : Word isMethodChar) :
    Constraint.parse "#" (String.ofList name.chars) =
      .ok (.capability (String.ofList name.chars)) := by
  have htrim : trim name.chars = name.chars :=
    (name.trimmed fun _ => isTokenChar_of_isMethodChar).trim_eq
  have hkind : ConstraintKind.ofKeyword? "#" = some .capability := rfl
  unfold Constraint.parse
  rw [hkind]
  simp only [String.toList_ofList, htrim, Constraint.ofKind]
  rw [if_neg (ofList_ne_empty name.chars_ne_nil)]
  rfl

theorem Constraint.parse_token {chars : List Char} (hchars : ∀ c ∈ chars, isTokenChar c = true) :
    Constraint.parse "val" (String.ofList (':' :: chars)) =
      .ok (.val (.token (String.ofList (':' :: chars)))) := by
  have htrimmed : Trimmed (':' :: chars) := trimmed_cons (by decide) hchars
  have hne : String.ofList (':' :: chars) ≠ "" := ofList_ne_empty (List.cons_ne_nil _ _)
  have hkind : ConstraintKind.ofKeyword? "val" = some .val := rfl
  unfold Constraint.parse
  rw [hkind]
  simp only [String.toList_ofList, htrimmed.trim_eq, Constraint.ofKind]
  rw [if_neg hne, Literal.parse, String.toList_ofList]
  rfl

theorem Constraint.ofPair_method {name : Word isMethodChar} {left right : List Char}
    (hleft : Blank left) (hright : Blank right) :
    Constraint.ofPair (left ++ '#' :: name.chars ++ right) = (Pair.method name).build := by
  have htrimmed : Trimmed ('#' :: name.chars) :=
    trimmed_cons (by decide) fun c hc => isTokenChar_of_isMethodChar (name.allowed_of_mem c hc)
  rw [Constraint.ofPair, trim_append hleft htrimmed hright]
  exact Constraint.parse_capability name

theorem Constraint.ofPair_token {word : Word isTokenChar} {left right : List Char}
    (hleft : Blank left) (hright : Blank right) :
    Constraint.ofPair (left ++ ':' :: word.chars ++ right) = (Pair.token word).build := by
  have htrimmed : Trimmed (':' :: word.chars) := trimmed_cons (by decide) word.allowed_of_mem
  rw [Constraint.ofPair, trim_append hleft htrimmed hright]
  split
  · next method heq => exact absurd (List.cons.inj heq).1 (by decide)
  · rw [List.head?_cons, if_pos rfl]
    exact Constraint.parse_token word.allowed_of_mem

/-- A pair is cut at the colon behind its identifier, whatever its value holds. -/
theorem Constraint.ofPair_labelled {identifier : Word isMethodChar}
    {value left gap right : List Char} (hvalue : Trimmed value) (hne : value ≠ [])
    (hleft : Blank left) (hgap : Blank gap) (hright : Blank right) :
    Constraint.ofPair (left ++ identifier.chars ++ ':' :: gap ++ value ++ right) =
      Constraint.parse (String.ofList identifier.chars) (String.ofList value) := by
  have hidentifier : Trimmed identifier.chars :=
    identifier.trimmed fun _ => isTokenChar_of_isMethodChar
  have htrimmed : Trimmed (identifier.chars ++ ':' :: (gap ++ value)) := by
    have h := hidentifier.append hvalue identifier.chars_ne_nil hne (':' :: gap)
    rwa [List.append_assoc] at h
  have htext : left ++ identifier.chars ++ ':' :: gap ++ value ++ right =
      left ++ (identifier.chars ++ ':' :: (gap ++ value)) ++ right := by
    simp only [List.append_assoc, List.cons_append]
  have hgap : trim (gap ++ value) = trim value := by
    have h : trim (gap ++ value ++ []) = value :=
      trim_append hgap hvalue (List.forall_mem_nil _)
    rw [List.append_nil] at h
    rw [h, hvalue.trim_eq]
  rw [Constraint.ofPair, htext, trim_append hleft htrimmed hright]
  have hspan := span_identifier identifier (gap ++ value)
  -- the first character tells the three forms of a pair apart
  cases hchars : identifier.chars with
  | nil => exact absurd hchars identifier.chars_ne_nil
  | cons c tail =>
      have hc : isMethodChar c = true :=
        identifier.allowed_of_mem c (hchars ▸ List.mem_cons_self)
      have hhash : c ≠ '#' := ne_of_isMethodChar hc (by decide) (by decide)
      have hcolon : c ≠ ':' := ne_of_isMethodChar hc (by decide) (by decide)
      rw [hchars] at hspan hidentifier
      split
      · next method heq => exact absurd (List.cons.inj heq).1 hhash
      · next pair hpair =>
        have hhead : ¬ (c :: tail ++ ':' :: (gap ++ value)).head? = some ':' := by
          intro h
          exact hcolon (Option.some.inj h)
        rw [if_neg hhead, hspan]
        simp only [hidentifier.trim_eq]
        exact Constraint.parse_congr hgap

theorem Constraint.ofPair_value {identifier : Word isMethodChar} {value : Value}
    {left gap right : List Char} (hleft : Blank left) (hgap : Blank gap) (hright : Blank right) :
    Constraint.ofPair (left ++ identifier.chars ++ ':' :: gap ++ value.text ++ right) =
      (Pair.value identifier value).build :=
  Constraint.ofPair_labelled value.trimmed value.text_ne_nil hleft hgap hright

/-- Reading a pair does what the outline says, wherever its white space stands. -/
theorem Constraint.ofPair_eq_build {pair : Pair} {text : List Char} (h : pair.Spells text) :
    Constraint.ofPair text = pair.build := by
  cases h with
  | method hleft hright => exact Constraint.ofPair_method hleft hright
  | token hleft hright => exact Constraint.ofPair_token hleft hright
  | value hleft hgap hright => exact Constraint.ofPair_value hleft hgap hright

/-! ## A whole list -/

namespace Constraints

/-- An answer of `Constraints.read` for a text with `n` more characters in front. -/
def past (n : Nat) (outcome : Except DefinitionError (Constraints × Nat)) :
    Except DefinitionError (Constraints × Nat) :=
  outcome.map fun (constraints, used) => (constraints, used + n)

theorem past_past (m n : Nat) (outcome : Except DefinitionError (Constraints × Nat)) :
    past m (past n outcome) = past (n + m) outcome := by
  cases outcome with
  | error e => rfl
  | ok answer =>
      have h : answer.2 + n + m = answer.2 + (n + m) := Nat.add_assoc _ _ _
      exact congrArg (fun used => Except.ok (answer.1, used)) h

@[simp] theorem past_zero (outcome : Except DefinitionError (Constraints × Nat)) :
    past 0 outcome = outcome := by
  cases outcome <;> rfl

theorem bind_eq_past (outcome : Except DefinitionError (Constraints × Nat)) :
    (do
      let (constraints, used) ← outcome
      return (constraints, used + 1)) = past 1 outcome := by
  cases outcome <;> rfl

variable {text raw chunk rest : List Char} {done : List Constraint} {index : Nat}

/-- The characters of a delimited literal are collected unseen. -/
theorem read_over :
    read text raw done index chunk.length (chunk ++ rest) =
      past chunk.length (read text (raw ++ chunk) done (index + chunk.length) 0 rest) := by
  induction chunk generalizing raw index with
  | nil => simp
  | cons c chunk ih =>
      rw [List.length_cons, List.cons_append, read, ih, ← past, past_past, List.append_assoc]
      rw [Nat.add_assoc, Nat.add_comm 1]
      rfl

/-- A character that means nothing to a list is collected, and so is the literal that it opens. -/
theorem read_cons {c : Char} {literal : Nat} (hplain : c ≠ ')' ∧ c ≠ ',')
    (hliteral : Delimiter.ofChar? c = none ∧ literal = 0 ∨
      (Delimiter.ofChar? c).isSome ∧ Delimiter.span text index c rest = .ok literal) :
    read text raw done index 0 (c :: rest) =
      past 1 (read text (raw ++ [c]) done (index + 1) literal rest) := by
  rw [read, if_neg hplain.1, if_neg hplain.2]
  obtain ⟨hnone, rfl⟩ | ⟨hsome, hspan⟩ := hliteral
  · rw [hnone]
    exact bind_eq_past _
  · rw [if_pos hsome, hspan]
    exact bind_eq_past _

theorem read_plain (hchunk : ∀ c ∈ chunk, IsPlain c) :
    read text raw done index 0 (chunk ++ rest) =
      past chunk.length (read text (raw ++ chunk) done (index + chunk.length) 0 rest) := by
  induction chunk generalizing raw index with
  | nil => simp
  | cons c chunk ih =>
      obtain ⟨hplain, hopener⟩ := hchunk c List.mem_cons_self
      rw [List.cons_append, read_cons hplain (.inl ⟨hopener, rfl⟩),
        ih fun d hd => hchunk d (List.mem_cons_of_mem c hd), past_past, List.append_assoc,
        List.length_cons, Nat.add_assoc, Nat.add_comm 1]
      rfl

theorem read_value {value : Value} (hrest : StartsWithoutFlag rest) :
    read text raw done index 0 (value.text ++ rest) =
      past value.text.length
        (read text (raw ++ value.text) done (index + value.text.length) 0 rest) := by
  cases hvalue : value.isLiteral with
  | false =>
      cases value with
      | bare token =>
          exact read_plain fun c hc => isPlain_of_isTokenChar (token.allowed_of_mem c hc)
      | quoted body units_body => contradiction
      | regex body flags units_body body_ne_nil flags_subset => contradiction
  | true =>
      obtain ⟨opener, tail, htext, hopener, hspan⟩ :=
        Value.span_text hvalue (hrest.endsBefore value) text index
      have hplain : opener ≠ ')' ∧ opener ≠ ',' := by
        obtain rfl | rfl := hopener <;> decide
      have hsome : (Delimiter.ofChar? opener).isSome = true := by
        obtain rfl | rfl := hopener <;> rfl
      rw [htext, List.cons_append, read_cons hplain (.inr ⟨hsome, hspan⟩), read_over, past_past,
        List.append_assoc, List.length_cons, Nat.add_assoc, Nat.add_comm 1]
      rfl

/-- The characters of a pair are collected, those between the delimiters of its value too. -/
theorem read_pair {pair : Pair} {written : List Char} (hpair : pair.Spells written)
    (hrest : StartsWithoutFlag rest) :
    read text raw done index 0 (written ++ rest) =
      past written.length (read text (raw ++ written) done (index + written.length) 0 rest) := by
  obtain hplain | ⟨front, value, back, rfl, hfront, hback⟩ := exists_parts hpair
  · exact read_plain hplain
  · have hplain : ∀ c ∈ back, IsPlain c := fun c hc => isPlain_of_isWhiteSpace (hback c hc)
    rw [List.append_assoc, List.append_assoc front, read_plain hfront,
      read_value (startsWithoutFlag_append hback hrest), read_plain hplain, past_past, past_past]
    simp only [List.append_assoc, List.length_append, Nat.add_assoc, Nat.add_left_comm,
      Nat.add_comm]

/-- Reading a list does what the outline says: all pairs first, then the list of them. -/
theorem read_pairs {pairs : List Pair} {written : List Char} (hpairs : PairsSpell pairs written) :
    read text [] done index 0 (written ++ ')' :: rest) = do
      let constraints ← pairs.mapM Pair.build
      let list ← ofList (done ++ constraints)
      return (list, written.length + 1) := by
  induction hpairs generalizing done index with
  | @last pair written hpair =>
      have hrest : StartsWithoutFlag (')' :: rest) := by
        rintro c ⟨⟩
        decide
      rw [read_pair hpair hrest, List.nil_append, read, if_pos rfl,
        Constraint.ofPair_eq_build hpair, List.mapM_cons, List.mapM_nil]
      cases pair.build with
      | error e => rfl
      | ok constraint =>
          cases h : ofList (done ++ [constraint]) with
          | error e => simp [h, past, Except.map]
          | ok list => simp [h, past, Except.map, pure, Except.pure, Nat.add_comm]
  | @more pair pairs written others hpair hothers ih =>
      have hrest : StartsWithoutFlag (',' :: (others ++ ')' :: rest)) := by
        rintro c ⟨⟩
        decide
      rw [List.append_assoc, List.cons_append, read_pair hpair hrest, List.nil_append, read,
        if_neg (by decide), if_pos rfl, Constraint.ofPair_eq_build hpair, List.mapM_cons]
      cases pair.build with
      | error e => rfl
      | ok constraint =>
          rw [ok_bind, ok_bind, ih]
          cases pairs.mapM Pair.build with
          | error e => rfl
          | ok constraints =>
              simp only [ok_bind, List.append_assoc, List.singleton_append]
              cases h : ofList (done ++ constraint :: constraints) with
              | error e => simp [h, past, Except.map]
              | ok list =>
                  simp [h, past, Except.map, pure, Except.pure]
                  omega

end Constraints

end DynTypes
