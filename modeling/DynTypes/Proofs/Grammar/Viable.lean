import DynTypes.Proofs.Grammar.Reach
/-!
# Viable texts

A text is viable if some definition that keeps the grammar starts with it. From every state that
the machine can be in, some text is accepted, so whatever it goes over is viable; and a character
that it refuses is refused whatever follows.
-/

namespace DynTypes.Grammar

open Outline Token

/-- Some definition that keeps the grammar starts with the text. -/
def Viable (text : List Char) : Prop :=
  ∃ definition : String, text <+: definition.toList ∧ validate definition = .ok ()

theorem viable_iff {text : List Char} : Viable text ↔ ∃ more, Accepts .start 0 (text ++ more) := by
  constructor
  · rintro ⟨definition, ⟨more, hmore⟩, hvalidate⟩
    refine ⟨more, (check_eq_ok_iff _).1 ?_⟩
    rw [hmore]
    exact hvalidate
  · rintro ⟨more, hmore⟩
    refine ⟨String.ofList (text ++ more), ?_, ?_⟩
    · rw [String.toList_ofList]
      exact List.prefix_append text more
    · rw [validate, String.toList_ofList]
      exact (check_eq_ok_iff _).2 hmore

/-! ## Completions -/

section Completions

variable (depth : Nat)

/-- Closing all collections completes a text behind an alternative. -/
theorem accepts_closeAngles (isBare : Bool) :
    Accepts (.done isBare) depth (List.replicate depth '>') := by
  induction depth generalizing isBare with
  | zero => exact .finish rfl
  | succ depth ih =>
      have hslotted : Accepts .slotted depth (List.replicate depth '>') := (ih false).of_base rfl
      exact .cons (by decide) rfl hslotted

theorem accepts_closeParen (isMethod : Bool) :
    Accepts (.closed isMethod) depth (')' :: List.replicate depth '>') :=
  .cons (by decide) rfl (accepts_closeAngles depth false)

theorem accepts_name_letter : Accepts .start depth ('a' :: List.replicate depth '>') := by
  have hslotted : Accepts .slotted depth _ := (accepts_closeAngles depth false).of_base rfl
  have hmarked : Accepts .marked depth _ := hslotted.of_base rfl
  exact .cons (by decide) rfl (hmarked.of_base rfl)

theorem accepts_token_letter {phase : Phase} (hphase : phase = .colon ∨ phase = .gap) :
    Accepts phase depth ('a' :: ')' :: List.replicate depth '>') := by
  have htoken : Accepts .token depth _ := (accepts_closeParen depth false).of_base rfl
  rcases hphase with rfl | rfl
  · exact .cons (by decide) rfl htoken
  · exact .cons (by decide) rfl htoken

theorem accepts_method_letter :
    Accepts .hash depth ('a' :: ')' :: List.replicate depth '>') := by
  have hmethod : Accepts .method depth _ := (accepts_closeParen depth true).of_base rfl
  exact .cons (by decide) rfl hmethod

/-- No phase is a dead end. -/
theorem exists_accepts (phase : Phase) : ∃ more, Accepts phase depth more := by
  have hdone := accepts_closeAngles depth
  have hslotted : Accepts .slotted depth _ := (hdone false).of_base rfl
  have hmarked : Accepts .marked depth _ := hslotted.of_base rfl
  have hclosed := accepts_closeParen depth
  have hgap := accepts_token_letter depth (.inr rfl)
  have hbare : Accepts .bareWord depth _ := (hdone true).of_base rfl
  cases phase with
  | start => exact ⟨_, accepts_name_letter depth⟩
  | bareMark => exact ⟨'a' :: _, .cons (by decide) rfl hbare⟩
  | bareWord => exact ⟨_, hbare⟩
  | name => exact ⟨_, hmarked.of_base rfl⟩
  | marked => exact ⟨_, hmarked⟩
  | slotted => exact ⟨_, hslotted⟩
  | done isBare => exact ⟨_, hdone isBare⟩
  | pair => exact ⟨'#' :: _, .cons (by decide) rfl (accepts_method_letter depth)⟩
  | identifier => exact ⟨':' :: _, .cons (by decide) rfl hgap⟩
  | hash => exact ⟨_, accepts_method_letter depth⟩
  | method => exact ⟨_, (hclosed true).of_base rfl⟩
  | colon => exact ⟨_, accepts_token_letter depth (.inl rfl)⟩
  | gap => exact ⟨_, hgap⟩
  | token => exact ⟨_, (hclosed false).of_base rfl⟩
  | closed isMethod => exact ⟨_, hclosed isMethod⟩

end Completions

section Reached

variable {front rest : List Char} {phase : Phase} {depth : Nat}

theorem Reaches.viable (h : Reaches front phase depth rest) : Viable front := by
  obtain ⟨more, hmore⟩ := exists_accepts depth phase
  exact viable_iff.2 ⟨more, h.accepts_append hmore⟩

/-- A literal that is still open can be closed. -/
theorem Reaches.viable_open {kind : Delimiter} {behind : List Char}
    (h : Reaches front .gap depth (kind.toChar :: behind))
    (hbody : Delimiter.bodyLength? kind.toChar behind = none) :
    Viable (front ++ kind.toChar :: behind) := by
  have hletter : 'a' ≠ kind.toChar := by cases kind <;> decide
  have hunits := units_concat_of_bodyLength? (by decide) hletter hbody
  obtain ⟨value, hvalue, htext⟩ := Value.exists_text hunits (by simp)
  refine viable_iff.2 ⟨'a' :: kind.toChar :: ')' :: List.replicate depth '>', ?_⟩
  have hliteral := Accepts.literal hvalue (accepts_closeParen depth false)
  rw [htext] at hliteral
  rw [List.append_assoc]
  exact h.accepts_append (by simpa using hliteral)

theorem Accepts.after_ne_none {c : Char} (h : Accepts phase depth (c :: rest)) :
    phase.after depth (.ofChar c) ≠ none := by
  generalize htext : c :: rest = text at h
  cases h with
  | finish => contradiction
  | char _ _ hafter =>
      obtain ⟨rfl, rfl⟩ := List.cons.inj htext
      rw [hafter]
      exact Option.some_ne_none _
  | @literal value _ _ hvalue =>
      obtain ⟨opener, tail, hvalue_text, hopener⟩ := value.exists_opener hvalue
      rw [hvalue_text] at htext
      obtain ⟨rfl, -⟩ := List.cons.inj htext
      rcases hopener with rfl | rfl <;> exact Option.some_ne_none _

/-- A character that the machine refuses is refused whatever follows. -/
theorem Reaches.not_viable {c : Char} (h : Reaches front phase depth (c :: rest))
    (hafter : phase.after depth (.ofChar c) = none) : ¬ Viable (front ++ [c]) := by
  rw [viable_iff]
  rintro ⟨more, hmore⟩
  rw [List.append_assoc] at hmore
  have hreaches : Reaches front phase depth (c :: more) := h.congr rfl
  exact (hreaches.accepts hmore).after_ne_none hafter

theorem not_accepts_slashes {more : List Char} : ¬ Accepts .gap depth ('/' :: '/' :: more) := by
  intro h
  generalize htext : '/' :: '/' :: more = text at h
  cases h with
  | finish => contradiction
  | char hslash =>
      obtain ⟨rfl, -⟩ := List.cons.inj htext
      exact hslash rfl
  | @literal value _ _ hvalue =>
      cases value with
      | bare token => contradiction
      | quoted body units_body => cases htext
      | regex body flags units_body body_ne_nil flags_subset =>
          cases units_body with
          | nil => exact body_ne_nil rfl
          | plain _ hclosing _ =>
              obtain ⟨-, htail⟩ := List.cons.inj htext
              exact hclosing (List.cons.inj htail).1.symm
          | escaped _ => cases htext

/-- No definition has a regular expression without a body. -/
theorem Reaches.not_viable_slashes {behind : List Char}
    (h : Reaches front .gap depth ('/' :: '/' :: behind)) : ¬ Viable (front ++ ['/', '/']) := by
  rw [viable_iff]
  rintro ⟨more, hmore⟩
  rw [List.append_assoc] at hmore
  have hreaches : Reaches front .gap depth ('/' :: '/' :: more) := h.congr rfl
  exact not_accepts_slashes (hreaches.accepts hmore)

theorem Reaches.viable_slash {behind : List Char} (h : Reaches front .gap depth ('/' :: behind)) :
    Viable (front ++ ['/']) := by
  have hreaches : Reaches front .gap depth [Delimiter.slash.toChar] := h.congr rfl
  exact hreaches.viable_open rfl

end Reached

end DynTypes.Grammar
