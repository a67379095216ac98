import DynTypes.Proofs.Definition.Literal
import Mathlib.Data.List.Basic
import Mathlib.Data.List.DropRight
import Mathlib.Data.List.TakeWhile
/-!
# Words and the white space around them

No word of an outline holds white space, and no value starts or ends with some. So trimming finds
a word or a value again wherever white space was put around it.
-/

namespace DynTypes

namespace Text

open Outline (Blank)

variable {left mid right : List Char}

theorem dropWhile_append_of_blank (hleft : Blank left) (rest : List Char) :
    (left ++ rest).dropWhile isWhiteSpace = rest.dropWhile isWhiteSpace :=
  List.dropWhile_append_of_pos hleft

/-- No white space stands at the ends of the text. -/
structure Trimmed (text : List Char) : Prop where
  head : ∀ c ∈ text.head?, isWhiteSpace c = false
  last : ∀ c ∈ text.getLast?, isWhiteSpace c = false

theorem dropWhile_eq_self (h : ∀ c ∈ mid.head?, isWhiteSpace c = false) :
    mid.dropWhile isWhiteSpace = mid := by
  cases mid with
  | nil => rfl
  | cons c rest =>
      rw [List.dropWhile_cons_of_neg]
      rw [h c rfl]
      exact Bool.false_ne_true

theorem trimEnd_append (hright : Blank right) (hmid : ∀ c ∈ mid.getLast?, isWhiteSpace c = false) :
    trimEnd (mid ++ right) = mid := by
  have hblank : Blank right.reverse := by
    intro c hc
    exact hright c (List.mem_reverse.1 hc)
  rw [trimEnd, List.reverse_append, dropWhile_append_of_blank hblank, dropWhile_eq_self,
    List.reverse_reverse]
  intro c hc
  rw [List.head?_reverse] at hc
  exact hmid c hc

theorem trim_append (hleft : Blank left) (hmid : Trimmed mid) (hright : Blank right) :
    trim (left ++ mid ++ right) = mid := by
  rw [trim, trimStart, List.append_assoc, dropWhile_append_of_blank hleft]
  cases mid with
  | nil =>
      rw [List.nil_append, List.dropWhile_eq_nil_iff.2 hright]
      rfl
  | cons c mid =>
      have hhead : ∀ d ∈ (c :: mid ++ right).head?, isWhiteSpace d = false := hmid.head
      rw [dropWhile_eq_self hhead]
      exact trimEnd_append hright hmid.last

theorem Trimmed.trim_eq (hmid : Trimmed mid) : trim mid = mid := by
  have hnil : Blank [] := List.forall_mem_nil _
  have h : trim ([] ++ mid ++ []) = mid := trim_append hnil hmid hnil
  rwa [List.nil_append, List.append_nil] at h

theorem Trimmed.append {front back : List Char} (hfront : Trimmed front) (hback : Trimmed back)
    (hfront_ne : front ≠ []) (hback_ne : back ≠ []) (middle : List Char) :
    Trimmed (front ++ middle ++ back) := by
  constructor
  · intro c hc
    rw [List.append_assoc, List.head?_append_of_ne_nil _ hfront_ne] at hc
    exact hfront.head c hc
  · intro c hc
    rw [List.getLast?_append_of_ne_nil _ hback_ne] at hc
    exact hback.last c hc

theorem isWhiteSpace_of_mem_head?_dropWhile {text : List Char} {c : Char}
    (h : c ∈ (text.dropWhile isWhiteSpace).head?) : isWhiteSpace c = false := by
  have hhead := List.head?_dropWhile_not isWhiteSpace text
  rwa [h] at hhead

theorem trimmed_trim (text : List Char) : Trimmed (trim text) where
  head := by
    intro c hc
    -- what is cut from the end is none of the first character
    obtain ⟨cut, hcut⟩ := List.rdropWhile_prefix isWhiteSpace (trimStart text)
    apply isWhiteSpace_of_mem_head?_dropWhile
    rw [← trimStart, ← hcut]
    exact List.mem_head?_append_of_mem_head? hc
  last := by
    intro c hc
    rw [trim, trimEnd, List.getLast?_reverse] at hc
    exact isWhiteSpace_of_mem_head?_dropWhile hc

theorem Trimmed.of_forall (h : ∀ c ∈ mid, isWhiteSpace c = false) : Trimmed mid where
  head c hc := h c (List.mem_of_mem_head? hc)
  last c hc := h c (List.mem_of_mem_getLast? hc)

end Text

namespace Outline

open Text (Trimmed trim)

/-! ## The classes of characters -/

theorem isWhiteSpace_of_isNameChar {c : Char} (h : isNameChar c = true) :
    Text.isWhiteSpace c = false := by
  rw [isNameChar, Bool.and_eq_true, Bool.not_eq_true'] at h
  simpa using h.2

theorem ne_of_isNameChar {c d : Char} (h : isNameChar c = true) (hd : d ∈ reserved) : c ≠ d := by
  rintro rfl
  rw [isNameChar, Bool.and_eq_true, List.contains_iff_mem.2 hd] at h
  exact Bool.false_ne_true h.1

theorem isMethodChar_of_isNameChar {c : Char} (h : isNameChar c = true) :
    isMethodChar c = true := by
  rw [isMethodChar, h, Bool.true_or]

theorem isTokenChar_of_isMethodChar {c : Char} (h : isMethodChar c = true) :
    isTokenChar c = true := by
  rw [isTokenChar, h, Bool.true_or, Bool.true_or]

theorem eq_or_of_isTokenChar {c : Char} (h : isTokenChar c = true) :
    isNameChar c = true ∨ c = '?' ∨ c = '#' ∨ c = ':' := by
  simpa [isTokenChar, isMethodChar, or_assoc] using h

theorem isWhiteSpace_of_isTokenChar {c : Char} (h : isTokenChar c = true) :
    Text.isWhiteSpace c = false := by
  obtain hname | rfl | rfl | rfl := eq_or_of_isTokenChar h
  · exact isWhiteSpace_of_isNameChar hname
  all_goals decide

/-- A character of a token is none of those that end it. -/
theorem ne_of_isTokenChar {c d : Char} (h : isTokenChar c = true) (hd : d ∈ reserved)
    (hother : d ≠ '?' ∧ d ≠ '#' ∧ d ≠ ':') : c ≠ d := by
  obtain hname | rfl | rfl | rfl := eq_or_of_isTokenChar h
  · exact ne_of_isNameChar hname hd
  · exact hother.1.symm
  · exact hother.2.1.symm
  · exact hother.2.2.symm

theorem ne_of_isMethodChar {c d : Char} (h : isMethodChar c = true) (hd : d ∈ reserved)
    (hother : d ≠ '?') : c ≠ d := by
  rw [isMethodChar, Bool.or_eq_true, beq_iff_eq] at h
  obtain hname | rfl := h
  · exact ne_of_isNameChar hname hd
  · exact hother.symm

/-! ## Texts without delimiters -/

/-- No literal starts anywhere in the text. -/
def Undelimited (text : List Char) : Prop :=
  ∀ c ∈ text, c ≠ '"' ∧ c ≠ '/'

namespace Undelimited

variable {text : List Char}

theorem cons {c : Char} (hc : c ≠ '"' ∧ c ≠ '/') (h : Undelimited text) :
    Undelimited (c :: text) :=
  List.forall_mem_cons.2 ⟨hc, h⟩

theorem append {other : List Char} (h : Undelimited text) (hother : Undelimited other) :
    Undelimited (text ++ other) :=
  List.forall_mem_append.2 ⟨h, hother⟩

theorem of_tokenChars (h : ∀ c ∈ text, isTokenChar c = true) : Undelimited text := fun c hc =>
  ⟨ne_of_isTokenChar (h c hc) (by decide) (by decide),
    ne_of_isTokenChar (h c hc) (by decide) (by decide)⟩

theorem of_methodChars (h : ∀ c ∈ text, isMethodChar c = true) : Undelimited text :=
  of_tokenChars fun c hc => isTokenChar_of_isMethodChar (h c hc)

theorem of_nameChars (h : ∀ c ∈ text, isNameChar c = true) : Undelimited text :=
  of_methodChars fun c hc => isMethodChar_of_isNameChar (h c hc)

theorem intercalate {separator : List Char} {texts : List (List Char)}
    (hseparator : Undelimited separator) (h : ∀ text ∈ texts, Undelimited text) :
    Undelimited (separator.intercalate texts) := by
  induction texts with
  | nil => exact List.forall_mem_nil _
  | cons text texts ih =>
      obtain ⟨htext, htexts⟩ := List.forall_mem_cons.1 h
      cases texts with
      | nil => rwa [List.intercalate_singleton]
      | cons next texts =>
          rw [List.intercalate_cons_cons]
          exact (htext.append hseparator).append (ih htexts)

theorem of_blank (h : Blank text) : Undelimited text := by
  intro c hc
  constructor
  · rintro rfl
    exact absurd (h _ hc) (by decide)
  · rintro rfl
    exact absurd (h _ hc) (by decide)

theorem of_flags (h : ∀ c ∈ text, c ∈ literalFlags) : Undelimited text := by
  intro c hc
  have hall : ∀ d ∈ literalFlags, d ≠ '"' ∧ d ≠ '/' := by simp [literalFlags]
  exact hall c (h c hc)

end Undelimited

/-! ## Words and values -/

/-- Whether a text has at least one character and none that a class forbids. -/
def IsWord (allowed : Char → Bool) (text : String) : Prop :=
  text.toList ≠ [] ∧ ∀ c ∈ text.toList, allowed c = true

instance (allowed : Char → Bool) (text : String) : Decidable (IsWord allowed text) :=
  @instDecidableAnd _ _ inferInstance (List.decidableBAll _ _)

/-- A text as a word. -/
def Word.ofText (allowed : Char → Bool) (text : String) (h : IsWord allowed text) :
    Word allowed where
  chars := text.toList
  chars_ne_nil := h.1
  allowed_of_mem := h.2

theorem Word.isWord {allowed : Char → Bool} (word : Word allowed) :
    IsWord allowed (String.ofList word.chars) := by
  rw [IsWord, String.toList_ofList]
  exact ⟨word.chars_ne_nil, word.allowed_of_mem⟩

theorem ofList_ne_empty {chars : List Char} (hchars : chars ≠ []) : String.ofList chars ≠ "" := by
  intro h
  rw [← String.toList_inj, String.toList_ofList] at h
  exact hchars h

theorem Word.trimmed {allowed : Char → Bool} (word : Word allowed)
    (h : ∀ c, allowed c = true → isTokenChar c = true) : Trimmed word.chars :=
  .of_forall fun c hc => isWhiteSpace_of_isTokenChar (h c (word.allowed_of_mem c hc))

theorem isWhiteSpace_of_mem_literalFlags {c : Char} (h : c ∈ literalFlags) :
    Text.isWhiteSpace c = false := by
  have hall : (literalFlags.all fun d => !Text.isWhiteSpace d) = true := rfl
  simpa using List.all_eq_true.1 hall c h

theorem Value.trimmed (value : Value) : Trimmed value.text := by
  cases value with
  | bare token => exact token.trimmed fun _ h => h
  | quoted body units_body =>
      constructor
      · rintro c ⟨⟩
        decide
      · intro c hc
        rw [Value.text, List.getLast?_append_of_ne_nil _ (List.cons_ne_nil _ _)] at hc
        obtain rfl := Option.some.inj hc
        decide
  | regex body flags units_body body_ne_nil flags_subset =>
      constructor
      · rintro c ⟨⟩
        decide
      · intro c hc
        rw [Value.text, List.getLast?_append_of_ne_nil _ (List.cons_ne_nil _ _)] at hc
        obtain rfl | hflag := List.mem_cons.1 (List.mem_of_mem_getLast? hc)
        · decide
        · exact isWhiteSpace_of_mem_literalFlags (flags_subset c hflag)

theorem Value.text_ne_nil (value : Value) : value.text ≠ [] := by
  cases value with
  | bare token => exact token.chars_ne_nil
  | quoted body units_body => exact List.cons_ne_nil _ _
  | regex body flags units_body body_ne_nil flags_subset => exact List.cons_ne_nil _ _

theorem Value.head?_text_append (value : Value) (rest : List Char) :
    (value.text ++ rest).head? = value.text.head? :=
  List.head?_append_of_ne_nil _ value.text_ne_nil

end Outline

end DynTypes
