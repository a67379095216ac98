import DynTypes.Proofs.Definition.Outline
import DynTypes.Proofs.Grammar.Phase
/-!
# Classes of characters and of tokens

The words of an outline are given by predicates on characters, the table of phases by tokens.
These lemmas translate between the two.
-/

namespace DynTypes.Grammar

open Outline Token

theorem ofChar_eq_other_iff {c : Char} : Token.ofChar c = other ↔ isNameChar c = true := by
  unfold Token.ofChar isNameChar
  split
  case h_12 =>
    have hreserved : c ∉ reserved := by
      simp_all [reserved]
    cases hspace : Text.isWhiteSpace c
    · simp [hreserved]
    · simp
  all_goals decide

theorem ofChar_eq_space_iff {c : Char} :
    Token.ofChar c = space ↔ Text.isWhiteSpace c = true := by
  unfold Token.ofChar
  split
  case h_12 => cases Text.isWhiteSpace c <;> simp
  all_goals decide

/-- The only character of a class, if there is one. -/
def Token.char? : Token → Option Char
  | bar => some '|'
  | openAngle => some '<'
  | closeAngle => some '>'
  | openParen => some '('
  | closeParen => some ')'
  | comma => some ','
  | quote => some '"'
  | slash => some '/'
  | .hash => some '#'
  | colon => some ':'
  | question => some '?'
  | space | other | finish => none

theorem eq_of_ofChar_eq {c d : Char} {token : Token} (h : Token.ofChar c = token)
    (hd : token.char? = some d) : c = d := by
  subst h
  unfold Token.ofChar at hd
  split at hd
  case h_12 => cases hspace : Text.isWhiteSpace c <;> simp [hspace, Token.char?] at hd
  all_goals exact Option.some.inj hd

theorem ofChar_eq_iff {c d : Char} {token : Token} (hd : token.char? = some d) :
    Token.ofChar c = token ↔ c = d := by
  constructor
  · intro h
    exact eq_of_ofChar_eq h hd
  · rintro rfl
    cases token <;> cases hd <;> rfl

theorem isMethodChar_iff {c : Char} :
    isMethodChar c = true ↔ Token.ofChar c = other ∨ Token.ofChar c = question := by
  rw [ofChar_eq_other_iff, isMethodChar, Bool.or_eq_true, beq_iff_eq]
  constructor
  · rintro (hname | rfl)
    · exact .inl hname
    · exact .inr rfl
  · rintro (hname | hquestion)
    · exact .inl hname
    · exact .inr (eq_of_ofChar_eq hquestion rfl)

theorem isTokenChar_iff {c : Char} :
    isTokenChar c = true ↔ Token.ofChar c = other ∨ Token.ofChar c = question ∨
      Token.ofChar c = .hash ∨ Token.ofChar c = colon := by
  rw [← or_assoc, ← isMethodChar_iff, isTokenChar, Bool.or_eq_true, Bool.or_eq_true, or_assoc,
    beq_iff_eq, beq_iff_eq]
  constructor
  · rintro (hmethod | rfl | rfl)
    · exact .inl hmethod
    · exact .inr (.inl rfl)
    · exact .inr (.inr rfl)
  · rintro (hmethod | hhash | hcolon)
    · exact .inl hmethod
    · exact .inr (.inl (eq_of_ofChar_eq hhash rfl))
    · exact .inr (.inr (eq_of_ofChar_eq hcolon rfl))

section After

variable {phase : Phase} {depth : Nat} {target : Option (Phase × Nat)} {c : Char}

theorem after_nameChar (hc : isNameChar c = true) (hother : phase.after depth other = target) :
    phase.after depth (.ofChar c) = target := by
  rw [ofChar_eq_other_iff.2 hc]
  exact hother

theorem after_methodChar (hc : isMethodChar c = true) (hother : phase.after depth other = target)
    (hquestion : phase.after depth question = target) :
    phase.after depth (.ofChar c) = target := by
  obtain h | h := isMethodChar_iff.1 hc
  · rw [h]
    exact hother
  · rw [h]
    exact hquestion

theorem after_tokenChar (hc : isTokenChar c = true) (hother : phase.after depth other = target)
    (hquestion : phase.after depth question = target) (hhash : phase.after depth .hash = target)
    (hcolon : phase.after depth colon = target) : phase.after depth (.ofChar c) = target := by
  obtain h | h | h | h := isTokenChar_iff.1 hc
  · rw [h]
    exact hother
  · rw [h]
    exact hquestion
  · rw [h]
    exact hhash
  · rw [h]
    exact hcolon

end After

end DynTypes.Grammar
