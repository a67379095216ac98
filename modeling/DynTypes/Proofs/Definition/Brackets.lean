import DynTypes.Proofs.Definition.Words
import Mathlib.Data.List.Basic
/-!
# Literals and brackets of any text

Where a text stops inside of a literal, and which of its brackets outside of literals are never
closed. Both are told of every text, whether it keeps the grammar or not.
-/

namespace DynTypes

namespace Outline

/-! ## Literals -/

/-- Where a character stands with respect to the literals of a text. -/
inductive Place where
  | outside
  | inside (delimiter : Char)
  /-- Behind a backslash. -/
  | escaped (delimiter : Char)
deriving DecidableEq

namespace Place

/-- The place behind a character. The flags of a regular expression count as outside. -/
def next : Place → Char → Place
  | outside, c => if c = '"' ∨ c = '/' then inside c else outside
  | inside delimiter, c =>
    if c = '\\' then escaped delimiter else if c = delimiter then outside else inside delimiter
  | escaped delimiter, _ => inside delimiter

/-- The delimiter that would close the literal at hand. -/
def delimiter? : Place → Option Char
  | outside => none
  | inside delimiter | escaped delimiter => some delimiter

end Place

/-- The place at the end of a text. -/
def placeBehind (place : Place) (text : List Char) : Place :=
  text.foldl Place.next place

/-- The delimiter of the literal that a text stops inside of. -/
def openLiteral? (text : List Char) : Option Char :=
  (placeBehind .outside text).delimiter?

/-- The characters of a text, from some place on, that stand outside of literals. -/
def unquotedFrom : Place → List Char → List Char
  | _, [] => []
  | place, c :: rest =>
    if place = .outside ∧ place.next c = .outside then c :: unquotedFrom (place.next c) rest
    else unquotedFrom (place.next c) rest

/-- The characters of a text that stand outside of literals. -/
def unquoted (text : List Char) : List Char :=
  unquotedFrom .outside text

theorem placeBehind_append (place : Place) (front rest : List Char) :
    placeBehind place (front ++ rest) = placeBehind (placeBehind place front) rest :=
  List.foldl_append

theorem unquotedFrom_append (place : Place) (front rest : List Char) :
    unquotedFrom place (front ++ rest) =
      unquotedFrom place front ++ unquotedFrom (placeBehind place front) rest := by
  induction front generalizing place with
  | nil => rfl
  | cons c front ih =>
      rw [List.cons_append, unquotedFrom, unquotedFrom, ih]
      by_cases hunquoted : place = .outside ∧ place.next c = .outside
      · rw [if_pos hunquoted, if_pos hunquoted]
        rfl
      · rw [if_neg hunquoted, if_neg hunquoted]
        rfl

/-- Behind a text that leads outside again, nothing of the rest is hidden by it. -/
theorem unquoted_append {front : List Char} (hfront : placeBehind .outside front = .outside)
    (rest : List Char) : unquoted (front ++ rest) = unquoted front ++ unquoted rest := by
  rw [unquoted, unquotedFrom_append, hfront]
  rfl

theorem unquoted_singleton {c : Char} (hc : Place.outside.next c = .outside) :
    unquoted [c] = [c] := by
  rw [unquoted, unquotedFrom, hc, if_pos ⟨rfl, rfl⟩]
  rfl

section Units

variable {closing : Char} {body : List Char}

theorem placeBehind_units (hbody : Units closing body) :
    placeBehind (.inside closing) body = .inside closing := by
  induction hbody with
  | nil => rfl
  | plain hbackslash hclosing _ ih =>
      rw [placeBehind, List.foldl_cons, Place.next, if_neg hbackslash, if_neg hclosing]
      exact ih
  | escaped _ ih => exact ih

theorem unquotedFrom_units (hbody : Units closing body) :
    unquotedFrom (.inside closing) body = [] := by
  induction hbody with
  | nil => rfl
  | plain hbackslash hclosing _ ih =>
      rw [unquotedFrom, if_neg (by simp), Place.next, if_neg hbackslash, if_neg hclosing, ih]
  | escaped _ ih => exact ih

/-- A closed literal, from its first delimiter to its second. -/
theorem place_literal (hopener : closing = '"' ∨ closing = '/') (hbody : Units closing body) :
    placeBehind .outside (closing :: body ++ [closing]) = .outside ∧
      unquoted (closing :: body ++ [closing]) = [] := by
  have hclosing : closing ≠ '\\' := by
    rcases hopener with rfl | rfl <;> decide
  have hopen : Place.outside.next closing = .inside closing := if_pos hopener
  have hclose : (Place.inside closing).next closing = .outside := by
    rw [Place.next, if_neg hclosing, if_pos rfl]
  constructor
  · rw [placeBehind_append]
    change placeBehind (placeBehind (Place.outside.next closing) body) [closing] = _
    rw [hopen, placeBehind_units hbody]
    exact hclose
  · rw [unquoted, List.cons_append, unquotedFrom, hopen, if_neg (by simp), unquotedFrom_append,
      unquotedFrom_units hbody, placeBehind_units hbody, unquotedFrom, if_neg (by simp)]
    rfl

end Units

theorem Undelimited.place {text : List Char} (h : Undelimited text) :
    placeBehind .outside text = .outside ∧ unquoted text = text := by
  induction text with
  | nil => exact ⟨rfl, rfl⟩
  | cons c text ih =>
      obtain ⟨⟨hquote, hslash⟩, htext⟩ := List.forall_mem_cons.1 h
      have hc : Place.outside.next c = .outside := if_neg (not_or.2 ⟨hquote, hslash⟩)
      obtain ⟨hplace, hunquoted⟩ := ih htext
      constructor
      · rw [placeBehind, List.foldl_cons, hc]
        exact hplace
      · rw [unquoted, unquotedFrom, hc, if_pos ⟨rfl, rfl⟩]
        exact congrArg (c :: ·) hunquoted

/-- A whole literal leads outside again; only its flags count as outside of it. -/
theorem Value.place_text {value : Value} (hvalue : value.isLiteral = true) :
    placeBehind .outside value.text = .outside ∧ ∀ c ∈ unquoted value.text, c ∈ literalFlags := by
  cases value with
  | bare token => contradiction
  | quoted body units_body =>
      obtain ⟨hplace, hunquoted⟩ := place_literal (.inl rfl) units_body
      refine ⟨hplace, ?_⟩
      rw [Value.text, hunquoted]
      simp
  | regex body flags units_body body_ne_nil flags_subset =>
      obtain ⟨hplace, hunquoted⟩ := place_literal (.inr rfl) units_body
      obtain ⟨hplace', hunquoted'⟩ := (Undelimited.of_flags flags_subset).place
      have htext : '/' :: body ++ '/' :: flags = ('/' :: body ++ ['/']) ++ flags := by simp
      rw [Value.text, htext]
      constructor
      · rw [placeBehind_append, hplace, hplace']
      · rw [unquoted, unquotedFrom_append, hplace]
        change ∀ c ∈ unquoted _ ++ unquoted flags, c ∈ literalFlags
        rw [hunquoted, hunquoted', List.nil_append]
        exact flags_subset

/-- Where no closing delimiter is found, the text stops inside of the literal. -/
theorem delimiter?_of_bodyLength? {closing : Char} {behind : List Char}
    (h : Delimiter.bodyLength? closing behind = none) :
    (placeBehind (.inside closing) behind).delimiter? = some closing := by
  fun_induction Delimiter.bodyLength? closing behind with
  | case1 => rfl
  | case2 => rfl
  | case3 c rest ih => exact ih (by simpa using h)
  | case4 => contradiction
  | case5 c rest hlone hpair hne ih =>
      have hbackslash : c ≠ '\\' := ne_backslash hlone hpair
      rw [placeBehind, List.foldl_cons, Place.next, if_neg hbackslash, if_neg hne]
      exact ih (by simpa using h)

/-- Any further character that is no delimiter fills up what is missing of a unit. -/
theorem units_concat_of_bodyLength? {closing c : Char} {behind : List Char}
    (hbackslash : c ≠ '\\') (hclosing : c ≠ closing)
    (h : Delimiter.bodyLength? closing behind = none) : Units closing (behind ++ [c]) := by
  fun_induction Delimiter.bodyLength? closing behind with
  | case1 => exact .plain hbackslash hclosing .nil
  | case2 => exact .escaped .nil
  | case3 d rest ih => exact .escaped (ih (by simpa using h))
  | case4 => contradiction
  | case5 d rest hlone hpair hne ih =>
      exact .plain (ne_backslash hlone hpair) hne (ih (by simpa using h))

/-! ## Brackets -/

/-- Some opening bracket is never closed: whatever part of the text behind it is taken, each
closing bracket there has an opening one there. -/
def LeavesOpen (opener closer : Char) (text : List Char) : Prop :=
  ∃ before behind, text = before ++ opener :: behind ∧
    ∀ part, part <+: behind → part.count closer ≤ part.count opener

/-- The number of brackets that are open behind a text, with `n` of them in front. -/
def openCount (opener closer : Char) (n : Nat) (text : List Char) : Nat :=
  text.foldl (fun n c => if c = opener then n + 1 else if c = closer then n - 1 else n) n

section Brackets

variable {opener closer : Char} {text : List Char}

theorem openCount_append (n : Nat) (front rest : List Char) :
    openCount opener closer n (front ++ rest) =
      openCount opener closer (openCount opener closer n front) rest :=
  List.foldl_append

theorem openCount_eq_self {n : Nat} (h : ∀ c ∈ text, c ≠ opener ∧ c ≠ closer) :
    openCount opener closer n text = n := by
  induction text with
  | nil => rfl
  | cons c text ih =>
      obtain ⟨hopener, hcloser⟩ := h c List.mem_cons_self
      rw [openCount, List.foldl_cons, if_neg hopener, if_neg hcloser]
      exact ih fun d hd => h d (List.mem_cons_of_mem c hd)

/-- One of `n` brackets in front of the text stays open all the way through it. -/
def Outlasts (opener closer : Char) (n : Nat) (text : List Char) : Prop :=
  ∀ part, part <+: text → part.count closer < n + part.count opener

theorem Outlasts.pos {n : Nat} (h : Outlasts opener closer n text) : 0 < n := by
  simpa using h [] List.nil_prefix

theorem outlasts_cons {n : Nat} {c : Char} :
    Outlasts opener closer n (c :: text) ↔ 0 < n ∧
      ∀ part, part <+: text → (c :: part).count closer < n + (c :: part).count opener := by
  constructor
  · intro h
    refine ⟨h.pos, ?_⟩
    intro part hpart
    exact h _ (List.cons_prefix_cons.2 ⟨rfl, hpart⟩)
  · rintro ⟨hn, h⟩ part hpart
    rcases List.prefix_cons_iff.1 hpart with rfl | ⟨tail, rfl, htail⟩
    · simpa using hn
    · exact h tail htail

theorem outlasts_opener (hne : opener ≠ closer) {n : Nat} :
    Outlasts opener closer n (opener :: text) ↔ 0 < n ∧ Outlasts opener closer (n + 1) text := by
  rw [outlasts_cons]
  simp only [List.count_cons_self, List.count_cons_of_ne hne, Outlasts, Nat.add_assoc,
    Nat.add_comm 1]

theorem outlasts_closer (hne : opener ≠ closer) {n : Nat} :
    Outlasts opener closer n (closer :: text) ↔ Outlasts opener closer (n - 1) text := by
  rw [outlasts_cons]
  simp only [List.count_cons_self, List.count_cons_of_ne hne.symm]
  constructor
  · rintro ⟨hn, h⟩ part hpart
    have := h part hpart
    omega
  · intro h
    have hn := h.pos
    refine ⟨by omega, ?_⟩
    intro part hpart
    have := h part hpart
    omega

theorem outlasts_other {n : Nat} {c : Char} (hopener : c ≠ opener) (hcloser : c ≠ closer) :
    Outlasts opener closer n (c :: text) ↔ Outlasts opener closer n text := by
  rw [outlasts_cons]
  simp only [List.count_cons_of_ne hopener, List.count_cons_of_ne hcloser]
  exact ⟨fun h => h.2, fun h => ⟨h.pos, h⟩⟩

theorem leavesOpen_cons {c : Char} :
    LeavesOpen opener closer (c :: text) ↔
      LeavesOpen opener closer text ∨ c = opener ∧ Outlasts opener closer 1 text := by
  have hpart : Outlasts opener closer 1 text ↔
      ∀ part, part <+: text → part.count closer ≤ part.count opener := by
    simp only [Outlasts, Nat.add_comm 1, Nat.lt_succ_iff]
  rw [hpart]
  constructor
  · rintro ⟨_ | ⟨d, before⟩, behind, htext, hbehind⟩
    · obtain ⟨rfl, rfl⟩ := List.cons.inj htext
      exact .inr ⟨rfl, hbehind⟩
    · obtain ⟨rfl, rfl⟩ := List.cons.inj htext
      exact .inl ⟨before, behind, rfl, hbehind⟩
  · rintro (⟨before, behind, rfl, hbehind⟩ | ⟨rfl, hbehind⟩)
    · exact ⟨c :: before, behind, rfl, hbehind⟩
    · exact ⟨[], text, rfl, hbehind⟩

theorem not_leavesOpen_nil : ¬ LeavesOpen opener closer [] := by
  rintro ⟨before, behind, htext, -⟩
  simp at htext

/-- Brackets are open at the end if one of the text is never closed or if one in front of it
outlasts the text. -/
theorem openCount_pos_iff (hne : opener ≠ closer) (n : Nat) :
    0 < openCount opener closer n text ↔
      LeavesOpen opener closer text ∨ Outlasts opener closer n text := by
  induction text generalizing n with
  | nil => simp [openCount, not_leavesOpen_nil, Outlasts]
  | cons c text ih =>
      have hstep : openCount opener closer n (c :: text) = openCount opener closer
          (if c = opener then n + 1 else if c = closer then n - 1 else n) text := rfl
      rw [hstep, ih, leavesOpen_cons, or_assoc]
      apply or_congr_right
      by_cases hopener : c = opener
      · subst hopener
        rw [if_pos rfl, outlasts_opener hne]
        rcases Nat.eq_zero_or_pos n with rfl | hn
        · simp
        · have hmono : Outlasts c closer 1 text → Outlasts c closer (n + 1) text := by
            intro h part hpart
            have := h part hpart
            omega
          simpa [hn] using hmono
      · by_cases hcloser : c = closer
        · subst hcloser
          simp [hopener, outlasts_closer hne]
        · simp [hopener, hcloser, outlasts_other hopener hcloser]

theorem openCount_pos_iff_leavesOpen (hne : opener ≠ closer) :
    0 < openCount opener closer 0 text ↔ LeavesOpen opener closer text := by
  rw [openCount_pos_iff hne]
  have hnone : ¬ Outlasts opener closer 0 text := fun h => Nat.lt_irrefl 0 h.pos
  simp [hnone]

end Brackets

end Outline

end DynTypes
