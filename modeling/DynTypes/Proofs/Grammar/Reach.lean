import DynTypes.Proofs.Definition.Brackets
import DynTypes.Proofs.Definition.Words
import DynTypes.Proofs.Grammar.Completeness
/-!
# How far the grammar machine gets

`Reaches front phase depth rest` says that the machine has gone over `front` and stands in front
of `rest`, in some phase and with some number of open collections. A run ends where nothing is
left or where `Stops` gives the reason that it goes no further; what the check answers is read off
from there.
-/

namespace DynTypes.Grammar

open Outline Token

/-- The machine goes over `front` and stands in front of `rest`. What stands there matters to it
only as far as it could prolong a literal. -/
inductive Reaches : List Char → Phase → Nat → List Char → Prop where
  | start {text : List Char} : Reaches [] .start 0 text
  | char {front rest : List Char} {phase next : Phase} {depth opened : Nat} {c : Char}
      (h : Reaches front phase depth (c :: rest)) (hslash : Token.ofChar c ≠ slash)
      (hquote : Token.ofChar c ≠ quote)
      (hafter : phase.after depth (.ofChar c) = some (next, opened)) :
      Reaches (front ++ [c]) next opened rest
  | literal {front rest : List Char} {value : Value} {depth : Nat}
      (h : Reaches front .gap depth (value.text ++ rest)) (hvalue : value.isLiteral = true)
      (hrest : value.EndsBefore rest) : Reaches (front ++ value.text) (.closed false) depth rest

variable {front rest : List Char} {phase : Phase} {depth : Nat}

namespace Reaches

/-- Behind `front` the machine is in the state of the phase. -/
theorem scan_eq (h : Reaches front phase depth rest) (text : List Char) :
    Text.scan (step text) 0 0 State.initial (front ++ rest) =
      Text.scan (step text) front.length 0 (phase.state depth) rest := by
  induction h with
  | start => rfl
  | char _ hslash hquote hafter ih =>
      rw [List.append_assoc, List.singleton_append, ih, scan_char hslash hquote hafter,
        List.length_append]
      rfl
  | literal _ hvalue hrest ih =>
      rw [List.append_assoc, ih, scan_literal hvalue hrest, List.length_append]

theorem congr {rest' : List Char} (h : Reaches front phase depth rest)
    (hhead : rest.head? = rest'.head?) : Reaches front phase depth rest' := by
  induction h generalizing rest' with
  | start => exact .start
  | char _ hslash hquote hafter ih => exact .char (ih rfl) hslash hquote hafter
  | @literal front rest value depth _ hvalue hrest ih =>
      refine .literal (ih ?_) hvalue (hrest.congr hhead)
      rw [value.head?_text_append, value.head?_text_append]

theorem nil (h : Reaches front phase depth rest) : Reaches front phase depth [] := by
  cases h with
  | start => exact .start
  | char h hslash hquote hafter => exact .char (h.congr rfl) hslash hquote hafter
  | @literal front rest value depth h hvalue _ =>
      have hnil : StartsWithoutFlag [] := by
        rintro c ⟨⟩
      refine .literal (h.congr ?_) hvalue (hnil.endsBefore value)
      rw [value.head?_text_append, value.head?_text_append]

/-- What was gone over leaves the machine in one state only. -/
theorem state_eq {phase' : Phase} {depth' : Nat} (h : Reaches front phase depth rest)
    (h' : Reaches front phase' depth' rest) : phase.state depth = phase'.state depth' := by
  have hscan := (h.nil.scan_eq []).symm.trans (h'.nil.scan_eq [])
  rw [Text.scan_nil, Text.scan_nil] at hscan
  exact Except.ok.inj hscan

/-- What is accepted from here on is accepted behind what was gone over. -/
theorem accepts_append {more : List Char} (h : Reaches front phase depth rest)
    (hmore : Accepts phase depth more) : Accepts .start 0 (front ++ more) := by
  induction h generalizing more with
  | start => exact hmore
  | char _ hslash hquote hafter ih =>
      rw [List.append_assoc]
      exact ih (.char hslash hquote hafter hmore)
  | literal _ hvalue _ ih =>
      rw [List.append_assoc]
      exact ih (.literal hvalue hmore)

end Reaches

/-! ## What stands outside of literals -/

theorem next_outside {c : Char} (hslash : Token.ofChar c ≠ slash)
    (hquote : Token.ofChar c ≠ quote) : Place.outside.next c = .outside := by
  refine if_neg ?_
  rintro (rfl | rfl)
  · exact hquote rfl
  · exact hslash rfl

/-- The machine never stands inside of a literal. -/
theorem Reaches.placeBehind_eq (h : Reaches front phase depth rest) :
    placeBehind .outside front = .outside := by
  induction h with
  | start => rfl
  | char _ hslash hquote _ ih =>
      rw [placeBehind_append, ih]
      exact next_outside hslash hquote
  | literal _ hvalue _ ih =>
      rw [placeBehind_append, ih]
      exact (Value.place_text hvalue).1

/-- Induction over the characters outside of literals that the machine has gone over. Of a literal
only the flags are among them. -/
theorem Reaches.unquoted_induction {motive : Phase → Nat → List Char → Prop}
    (start : motive .start 0 [])
    (char : ∀ {phase next : Phase} {depth opened : Nat} {seen : List Char} {c : Char},
      motive phase depth seen → phase.after depth (.ofChar c) = some (next, opened) →
      motive next opened (seen ++ [c]))
    (literal : ∀ {depth : Nat} {seen flags : List Char}, motive .gap depth seen →
      (∀ c ∈ flags, c ∈ literalFlags) → motive (.closed false) depth (seen ++ flags))
    (h : Reaches front phase depth rest) : motive phase depth (unquoted front) := by
  induction h with
  | start => exact start
  | char h hslash hquote hafter ih =>
      rw [unquoted_append h.placeBehind_eq, unquoted_singleton (next_outside hslash hquote)]
      exact char ih hafter
  | literal h hvalue _ ih =>
      rw [unquoted_append h.placeBehind_eq]
      exact literal ih (Value.place_text hvalue).2

/-! ## Texts that are accepted behind -/

/-- Two literals in front of texts that do not prolong them end at the same place. -/
theorem append_text_inj {value value' : Value} {rest' : List Char}
    (hvalue : value.isLiteral = true) (hvalue' : value'.isLiteral = true)
    (hrest : value.EndsBefore rest) (hrest' : value'.EndsBefore rest')
    (htext : value.text ++ rest = value'.text ++ rest') : rest = rest' := by
  obtain ⟨opener, tail, hopener, -, hspan⟩ := value.span_text hvalue hrest [] 0
  obtain ⟨opener', tail', hopener', -, hspan'⟩ := value'.span_text hvalue' hrest' [] 0
  rw [hopener, hopener', List.cons_append, List.cons_append] at htext
  obtain ⟨rfl, htail⟩ := List.cons.inj htext
  have hlength : tail.length = tail'.length := by
    rw [htail, hspan'] at hspan
    exact (Except.ok.inj hspan).symm
  exact (List.append_inj htail hlength).2

theorem Accepts.of_char {next : Phase} {opened : Nat} {c : Char} (hslash : Token.ofChar c ≠ slash)
    (hquote : Token.ofChar c ≠ quote)
    (hafter : phase.after depth (.ofChar c) = some (next, opened))
    (h : Accepts phase depth (c :: rest)) : Accepts next opened rest := by
  refine h.of_cons hafter ?_
  rintro rfl rfl
  cases htoken : Token.ofChar c <;> rw [htoken] at hafter hslash hquote <;>
    first | contradiction | cases hafter

theorem Accepts.of_literal {value : Value} (hvalue : value.isLiteral = true)
    (hrest : value.EndsBefore rest) (h : Accepts .gap depth (value.text ++ rest)) :
    Accepts (.closed false) depth rest := by
  obtain ⟨opener, tail, hvalue_text, hopener⟩ := value.exists_opener hvalue
  have hliteral : Token.ofChar opener = slash ∨ Token.ofChar opener = quote := by
    rcases hopener with rfl | rfl <;> decide
  generalize htext : value.text ++ rest = text at h
  cases h with
  | finish hend => contradiction
  | char hslash hquote =>
      rw [hvalue_text] at htext
      obtain ⟨rfl, -⟩ := List.cons.inj htext
      exact absurd hliteral (not_or.2 ⟨hslash, hquote⟩)
  | @literal value' _ rest' hvalue' hrest' =>
      rw [append_text_inj hvalue hvalue' hrest (hrest'.startsWithoutFlag.endsBefore value') htext]
      exact hrest'

/-- What is accepted as a whole is accepted from everywhere that the machine gets to. -/
theorem Reaches.accepts (h : Reaches front phase depth rest)
    (haccepts : Accepts .start 0 (front ++ rest)) : Accepts phase depth rest := by
  induction h with
  | start => exact haccepts
  | char _ hslash hquote hafter ih =>
      rw [List.append_assoc] at haccepts
      exact (ih haccepts).of_char hslash hquote hafter
  | literal _ hvalue hrest ih =>
      rw [List.append_assoc] at haccepts
      exact (ih haccepts).of_literal hvalue hrest

/-! ## Where a run ends -/

/-- Why the machine goes no further behind `front`, and what the check of the whole text answers
there. -/
inductive Stops (text front : List Char) :
    Phase → Nat → List Char → Except GrammarError Unit → Prop where
  | finish {phase : Phase} {depth : Nat} :
      Stops text front phase depth [] (conclude text (phase.state depth))
  | unexpected {phase : Phase} {depth : Nat} {c : Char} {rest : List Char}
      (hafter : phase.after depth (.ofChar c) = none) :
      Stops text front phase depth (c :: rest)
        (.error (.atPosition (.unexpected c) text front.length))
  | unterminated {depth : Nat} {kind : Delimiter} {behind : List Char}
      (hbody : Delimiter.bodyLength? kind.toChar behind = none) :
      Stops text front .gap depth (kind.toChar :: behind)
        (.error (.atEnd (.unterminated kind.toChar) text))
  | emptyPattern {depth : Nat} {behind : List Char} :
      Stops text front .gap depth ('/' :: '/' :: behind)
        (.error (.atPosition .emptyPattern text (front.length + 1)))

theorem stops_of_span {text : List Char} {opener : Char} {e : GrammarError}
    (hopener : opener = '"' ∨ opener = '/')
    (h : Delimiter.span text front.length opener rest = .error e) :
    Stops text front .gap depth (opener :: rest) (.error e) := by
  unfold Delimiter.span at h
  split at h
  · next hnone => rcases hopener with rfl | rfl <;> contradiction
  · next kind hkind =>
    obtain rfl := Delimiter.eq_toChar_of_ofChar? hkind
    split at h
    · next hbody =>
      cases h
      exact .unterminated hbody
    · contradiction
    · next hbody =>
      cases h
      obtain ⟨body, behind, rfl, -, hlength⟩ := exists_units_of_bodyLength? hbody
      obtain rfl := List.length_eq_zero_iff.1 hlength
      exact .emptyPattern
    · contradiction

theorem exists_stops_of_reaches (text : List Char) (h : Reaches front phase depth rest) :
    ∃ front' phase' depth' rest', front ++ rest = front' ++ rest' ∧
      Reaches front' phase' depth' rest' ∧
      Stops text front' phase' depth' rest'
        (Text.scan (step text) front.length 0 (phase.state depth) rest >>= conclude text) := by
  -- a literal is gone over at once, so the induction is on the length of the rest
  induction hn : rest.length using Nat.strongRecOn generalizing front phase depth rest with
  | ind n ih =>
  rcases rest with _ | ⟨c, rest⟩
  · exact ⟨front, phase, depth, [], rfl, h, .finish⟩
  cases hafter : phase.after depth (.ofChar c) with
  | none =>
      refine ⟨front, phase, depth, c :: rest, rfl, h, ?_⟩
      rw [Text.scan_zero, step_state, hafter]
      exact .unexpected hafter
  | some target =>
      obtain ⟨next, opened⟩ := target
      by_cases hopener : Token.ofChar c = slash ∨ Token.ofChar c = quote
      · obtain ⟨rfl, rfl, rfl⟩ := after_opener hopener hafter
        cases hspan : Delimiter.span text front.length c rest with
        | error e =>
            refine ⟨front, .gap, opened, c :: rest, rfl, h, ?_⟩
            have hchar : c = '"' ∨ c = '/' := by
              rcases hopener with hslash | hquote
              · exact .inr (eq_of_ofChar_eq hslash rfl)
              · exact .inl (eq_of_ofChar_eq hquote rfl)
            rw [Text.scan_zero, step_state, hafter]
            simp only [if_pos hopener, hspan]
            exact stops_of_span hchar hspan
        | ok used =>
            obtain ⟨value, tail, behind, hvalue, htext, rfl, -, hends⟩ :=
              exists_value_of_span hspan
            rw [← List.cons_append, ← htext] at h hn ⊢
            have hlength : behind.length < n := by
              rw [← hn, htext, List.length_append, List.length_cons]
              omega
            obtain ⟨front', phase', depth', rest', heq, hreaches, hstops⟩ :=
              ih behind.length hlength (h.literal hvalue hends) rfl
            rw [List.append_assoc] at heq
            rw [List.length_append] at hstops
            refine ⟨front', phase', depth', rest', heq, hreaches, ?_⟩
            rw [scan_literal hvalue hends]
            exact hstops
      · obtain ⟨hslash, hquote⟩ := not_or.1 hopener
        have hlength : rest.length < n := by
          rw [← hn, List.length_cons]
          omega
        obtain ⟨front', phase', depth', rest', heq, hreaches, hstops⟩ :=
          ih rest.length hlength (h.char hslash hquote hafter) rfl
        rw [List.append_assoc] at heq
        rw [List.length_append] at hstops
        refine ⟨front', phase', depth', rest', heq, hreaches, ?_⟩
        rw [scan_char hslash hquote hafter]
        exact hstops

/-- The answer of the check is the one that the end of the run gives. -/
theorem exists_stops {text : List Char} (hne : text ≠ []) :
    ∃ front phase depth rest, text = front ++ rest ∧ Reaches front phase depth rest ∧
      Stops text front phase depth rest (check text) := by
  have hstart : Reaches [] .start 0 text := .start
  obtain ⟨front, phase, depth, rest, heq, hreaches, hstops⟩ :=
    exists_stops_of_reaches text hstart
  refine ⟨front, phase, depth, rest, heq, hreaches, ?_⟩
  rw [check, if_neg (by simpa using hne)]
  exact hstops

end DynTypes.Grammar
