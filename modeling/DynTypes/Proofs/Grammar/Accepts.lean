import DynTypes.Proofs.Definition.Literal
import DynTypes.Proofs.Grammar.Phase
/-!
# Texts that the grammar machine takes

`Accepts phase depth text` says that the machine, in some phase and with some number of open
collections, takes all of a text and may stop behind it. It follows the table of phases character
by character and passes over a delimited literal at once. `check_eq_ok_iff` ties it to the check
itself.
-/

namespace DynTypes.Grammar

open Outline Token

/-- The machine takes the whole of a text. -/
inductive Accepts : Phase → Nat → List Char → Prop where
  | finish {phase : Phase} (hend : phase.mayEnd = true) : Accepts phase 0 []
  | char {phase next : Phase} {depth opened : Nat} {c : Char} {rest : List Char}
      (hslash : Token.ofChar c ≠ slash) (hquote : Token.ofChar c ≠ quote)
      (hafter : phase.after depth (.ofChar c) = some (next, opened))
      (hrest : Accepts next opened rest) : Accepts phase depth (c :: rest)
  | literal {value : Value} {depth : Nat} {rest : List Char} (hvalue : value.isLiteral = true)
      (hrest : Accepts (.closed false) depth rest) : Accepts .gap depth (value.text ++ rest)

/-- What follows a literal cannot be taken for one of its flags. -/
theorem Accepts.startsWithoutFlag {isMethod : Bool} {depth : Nat} {rest : List Char}
    (h : Accepts (.closed isMethod) depth rest) : StartsWithoutFlag rest := by
  cases h with
  | finish => contradiction
  | @char _ _ _ _ c rest _ _ hafter _ =>
      intro d hd hflag
      obtain rfl : c = d := by simpa using hd
      have hall : (literalFlags.all fun f => Token.ofChar f == other) = true := rfl
      have hother : Token.ofChar c = other := by simpa using List.all_eq_true.1 hall c hflag
      rw [hother] at hafter
      contradiction

/-- Only in front of a value may a literal start. -/
theorem after_opener {phase next : Phase} {depth opened : Nat} {token : Token}
    (htoken : token = slash ∨ token = quote)
    (h : phase.after depth token = some (next, opened)) :
    phase = .gap ∧ next = .closed false ∧ opened = depth := by
  obtain rfl | rfl := htoken
  · cases phase <;> cases h
    exact ⟨rfl, rfl, rfl⟩
  · cases phase <;> cases h
    exact ⟨rfl, rfl, rfl⟩

/-- A character that does not open a literal is taken by the table. -/
theorem Accepts.of_cons {phase next : Phase} {depth opened : Nat} {c : Char} {rest : List Char}
    (hafter : phase.after depth (.ofChar c) = some (next, opened))
    (hnext : phase = .gap → next ≠ .closed false) (h : Accepts phase depth (c :: rest)) :
    Accepts next opened rest := by
  generalize htext : c :: rest = text at h
  cases h with
  | finish => contradiction
  | char _ _ hafter' hrest =>
      obtain ⟨rfl, rfl⟩ := List.cons.inj htext
      rw [hafter] at hafter'
      cases hafter'
      exact hrest
  | @literal value _ _ hvalue _ =>
      obtain ⟨opener, tail, hvalue_text, hopener⟩ := value.exists_opener hvalue
      rw [hvalue_text] at htext
      obtain rfl : c = opener := (List.cons.inj htext).1
      have htoken : Token.ofChar c = slash ∨ Token.ofChar c = quote := by
        obtain rfl | rfl := hopener <;> decide
      exact absurd (after_opener htoken hafter).2.1 (hnext rfl)

/-- Every character that opens no literal is taken by the table. -/
theorem Accepts.exists_after {phase : Phase} {depth : Nat} {c : Char} {rest : List Char}
    (hc : c ≠ '"' ∧ c ≠ '/') (h : Accepts phase depth (c :: rest)) :
    ∃ next opened, phase.after depth (.ofChar c) = some (next, opened) ∧
      Accepts next opened rest := by
  generalize htext : c :: rest = text at h
  cases h with
  | finish hend => contradiction
  | char hslash hquote hafter hrest =>
      obtain ⟨rfl, rfl⟩ := List.cons.inj htext
      exact ⟨_, _, hafter, hrest⟩
  | @literal value _ _ hvalue hrest =>
      obtain ⟨opener, tail, hopener, hdelimiter⟩ := value.exists_opener hvalue
      rw [hopener] at htext
      obtain ⟨rfl, -⟩ := List.cons.inj htext
      exact absurd hdelimiter (not_or.2 hc)

/-- Nothing is left just where the machine may stop. -/
theorem Accepts.mayEnd {phase : Phase} {depth : Nat} (h : Accepts phase depth []) :
    phase.mayEnd = true ∧ depth = 0 := by
  generalize htext : [] = text at h
  cases h with
  | finish hend => exact ⟨hend, rfl⟩
  | char => contradiction
  | @literal value _ _ hvalue _ =>
      obtain ⟨opener, tail, hopener, -⟩ := value.exists_opener hvalue
      rw [hopener] at htext
      contradiction

/-- Where two phases go on alike, they accept alike. -/
theorem Accepts.mono {phase next : Phase} {depth : Nat} {text : List Char}
    (h : Accepts next depth text) (hgap : next ≠ .gap)
    (hend : next.mayEnd = true → phase.mayEnd = true)
    (hafter : ∀ c ∈ text.head?, ∀ target, next.after depth (.ofChar c) = some target →
      phase.after depth (.ofChar c) = some target) : Accepts phase depth text := by
  cases h with
  | finish hnext => exact .finish (hend hnext)
  | char hslash hquote htarget hrest =>
      exact .char hslash hquote (hafter _ rfl _ htarget) hrest
  | literal => contradiction

/-- A construct that may stop here goes on with what stands behind it. -/
theorem Accepts.of_base {phase next : Phase} {depth : Nat} {text : List Char}
    (h : Accepts next depth text) (hbase : phase.base? = some next) :
    Accepts phase depth text := by
  refine h.mono (Phase.ne_gap_of_base hbase).2 ?_ fun c _ target htarget => ?_
  · rw [Phase.mayEnd_eq_base hbase]
    exact id
  · by_cases hown : Token.ofChar c ∈ phase.own
    · rw [Phase.after_own hbase hown] at htarget
      contradiction
    · rw [Phase.after_eq_base hbase hown]
      exact htarget

/-- Where nothing of its own follows, a construct stops. -/
theorem Accepts.base {phase next : Phase} {depth : Nat} {text : List Char}
    (h : Accepts phase depth text) (hbase : phase.base? = some next)
    (hown : ∀ c ∈ text.head?, Token.ofChar c ∉ phase.own) : Accepts next depth text := by
  refine h.mono (Phase.ne_gap_of_base hbase).1 ?_ fun c hc target htarget => ?_
  · rw [Phase.mayEnd_eq_base hbase]
    exact id
  · rw [← Phase.after_eq_base hbase (hown c hc)]
    exact htarget

theorem conclude_eq_ok_iff (text : List Char) (s : State) :
    conclude text s = .ok () ↔ s.missingCloser? = none ∧ s.admits finish = true := by
  unfold conclude
  split
  · next closer h => simp [h]
  · next h => by_cases hfinish : s.admits finish <;> simp [h, hfinish]

theorem missingCloser?_state (phase : Phase) (depth : Nat) :
    (phase.state (depth + 1)).missingCloser? = some '>' := by
  cases phase <;> rfl

theorem mayEnd_iff (phase : Phase) :
    (phase.state 0).missingCloser? = none ∧ (phase.state 0).admits finish = true ↔
      phase.mayEnd = true := by
  cases phase with
  | done isBare => cases isBare <;> decide
  | closed isMethod => cases isMethod <;> decide
  | _ => decide

section Scan

variable {c : Char} {rest : List Char} {depth : Nat}

theorem step_char {phase next : Phase} {opened : Nat} (hslash : Token.ofChar c ≠ slash)
    (hquote : Token.ofChar c ≠ quote)
    (hafter : phase.after depth (.ofChar c) = some (next, opened)) (text : List Char)
    (index : Nat) : step text index (phase.state depth) c rest = .ok (next.state opened, 0) := by
  rw [step_state, hafter]
  exact if_neg (by simp [hslash, hquote])

theorem scan_char {phase next : Phase} {opened : Nat} (hslash : Token.ofChar c ≠ slash)
    (hquote : Token.ofChar c ≠ quote)
    (hafter : phase.after depth (.ofChar c) = some (next, opened)) (text : List Char)
    (index : Nat) :
    Text.scan (step text) index 0 (phase.state depth) (c :: rest) =
      Text.scan (step text) (index + 1) 0 (next.state opened) rest := by
  rw [Text.scan_zero, step_char hslash hquote hafter]
  rfl

/-- A literal is taken at its opener, and the rest of it is used up. -/
theorem step_literal {value : Value} (hvalue : value.isLiteral = true)
    (hrest : value.EndsBefore rest) (text : List Char) (index : Nat) :
    ∃ opener tail, value.text = opener :: tail ∧
      step text index (Phase.gap.state depth) opener (tail ++ rest) =
        .ok ((Phase.closed false).state depth, tail.length) := by
  obtain ⟨opener, tail, htext, hopener, hspan⟩ := value.span_text hvalue hrest text index
  refine ⟨opener, tail, htext, ?_⟩
  have hafter : Phase.gap.after depth (.ofChar opener) = some (.closed false, depth) := by
    obtain rfl | rfl := hopener <;> rfl
  have hliteral : Token.ofChar opener = slash ∨ Token.ofChar opener = quote := by
    obtain rfl | rfl := hopener
    · exact .inr rfl
    · exact .inl rfl
  simp only [step_state, hafter, if_pos hliteral, hspan]
  rfl

theorem scan_literal {value : Value} (hvalue : value.isLiteral = true)
    (hrest : value.EndsBefore rest) (text : List Char) (index : Nat) :
    Text.scan (step text) index 0 (Phase.gap.state depth) (value.text ++ rest) =
      Text.scan (step text) (index + value.text.length) 0 ((Phase.closed false).state depth)
        rest := by
  obtain ⟨opener, tail, htext, hstep⟩ := @step_literal rest depth value hvalue hrest text index
  rw [htext, List.cons_append]
  exact Text.scan_of_step _ hstep

end Scan

theorem scan_conclude_of_accepts {phase : Phase} {depth : Nat} {rest : List Char}
    (h : Accepts phase depth rest) (text : List Char) (index : Nat) :
    (Text.scan (step text) index 0 (phase.state depth) rest >>= conclude text) = .ok () := by
  induction h generalizing index with
  | finish hend =>
      exact (conclude_eq_ok_iff text _).2 ((mayEnd_iff _).2 hend)
  | char hslash hquote hafter _ ih =>
      rw [scan_char hslash hquote hafter]
      exact ih (index + 1)
  | @literal value depth rest hvalue hrest ih =>
      rw [scan_literal hvalue (hrest.startsWithoutFlag.endsBefore value)]
      exact ih _

theorem accepts_of_scan_conclude {phase : Phase} {depth : Nat} {rest : List Char}
    {text : List Char} {index : Nat}
    (h : (Text.scan (step text) index 0 (phase.state depth) rest >>= conclude text) = .ok ()) :
    Accepts phase depth rest := by
  -- a literal is passed over at once, so the induction is on the length of the rest
  induction hn : rest.length using Nat.strongRecOn
    generalizing phase depth rest index with
  | ind n ih =>
  cases rest with
  | nil =>
      obtain ⟨hmissing, hfinish⟩ := (conclude_eq_ok_iff text _).1 h
      cases depth with
      | zero => exact .finish ((mayEnd_iff phase).1 ⟨hmissing, hfinish⟩)
      | succ depth =>
          rw [missingCloser?_state] at hmissing
          contradiction
  | cons c rest =>
      rw [Text.scan_zero, step_state] at h
      cases hafter : phase.after depth (.ofChar c) with
      | none =>
          rw [hafter] at h
          contradiction
      | some pair =>
          obtain ⟨next, opened⟩ := pair
          simp only [hafter] at h
          by_cases hopener : Token.ofChar c = slash ∨ Token.ofChar c = quote
          · obtain ⟨rfl, rfl, rfl⟩ := after_opener hopener hafter
            rw [if_pos hopener] at h
            cases hspan : Delimiter.span text index c rest with
            | error e =>
                rw [hspan] at h
                contradiction
            | ok used =>
                obtain ⟨value, tail, behind, hvalue, htext, rfl, rfl, -⟩ :=
                  exists_value_of_span hspan
                rw [hspan] at h
                change (Text.scan (step text) (index + 1) tail.length _ (tail ++ behind) >>= _) =
                  _ at h
                rw [Text.scan_length_append] at h
                rw [← List.cons_append, ← htext]
                refine .literal hvalue (ih behind.length ?_ h rfl)
                rw [← hn, List.length_cons, List.length_append]
                omega
          · rw [if_neg hopener] at h
            have hrest := ih rest.length (by rw [← hn, List.length_cons]; omega) h rfl
            exact .char (fun hslash => hopener (.inl hslash)) (fun hquote => hopener (.inr hquote))
              hafter hrest

/-- A text keeps the grammar just when the machine takes all of it from the start on. -/
theorem check_eq_ok_iff (text : List Char) :
    check text = .ok () ↔ Accepts .start 0 text := by
  cases text with
  | nil =>
      have hnot : ¬ Accepts .start 0 [] := fun h => by
        cases h
        contradiction
      simp [check, hnot]
  | cons c rest =>
      constructor
      · intro h
        exact accepts_of_scan_conclude h
      · intro h
        exact scan_conclude_of_accepts h (c :: rest) 0

end DynTypes.Grammar
