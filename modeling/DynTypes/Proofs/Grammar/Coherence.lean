import DynTypes.Proofs.Grammar.ErrorPosition
import DynTypes.Proofs.Text.Runs
/-!
# The states that a run comes by

The grammar machine keeps two lists of tokens, two counters and a part of a pair, and nothing in
their types ties them together. `Coherent` is what does: it says what they mean, in terms of the
text that the machine has gone over.
-/

namespace DynTypes.Grammar

open Outline Token

variable {text front rest : List Char} {phase : Phase} {depth : Nat}

/-! ## Runs -/

/-- The runs of the machine. -/
abbrev Passes (text : List Char) : List Char → State → List Char → Prop :=
  Text.Passes (step text) State.initial text

/-- The check of the text goes on from every state of the run. -/
theorem Passes.check_eq {s : State} (h : Passes text front s rest) (hne : text ≠ []) :
    check text = Text.scan (Grammar.step text) front.length 0 s rest >>= conclude text := by
  rw [check, if_neg (by simpa using hne), ← h.scan_eq]

/-- Where the machine takes a character, the table does, and a literal is taken as a whole. -/
theorem after_of_step {s' : State} {index used : Nat} {c : Char} {behind : List Char}
    (hstep : step text index (phase.state depth) c behind = .ok (s', used)) :
    ∃ phase' depth', phase.after depth (.ofChar c) = some (phase', depth') ∧
      s' = phase'.state depth' ∧
      if Token.ofChar c = slash ∨ Token.ofChar c = quote then
        Delimiter.span text index c behind = .ok used
      else used = 0 := by
  rw [step_state] at hstep
  cases hafter : phase.after depth (.ofChar c) with
  | none =>
      rw [hafter] at hstep
      contradiction
  | some target =>
      obtain ⟨phase', depth'⟩ := target
      simp only [hafter] at hstep
      refine ⟨phase', depth', rfl, ?_⟩
      split at hstep
      · next hopener =>
        cases hspan : Delimiter.span text index c behind with
        | error e =>
            rw [hspan] at hstep
            contradiction
        | ok used =>
            rw [hspan] at hstep
            obtain ⟨rfl, rfl⟩ := Prod.mk.inj (Except.ok.inj hstep)
            rw [if_pos hopener]
            exact ⟨rfl, rfl⟩
      · next hopener =>
        obtain ⟨rfl, rfl⟩ := Prod.mk.inj (Except.ok.inj hstep)
        rw [if_neg hopener]
        exact ⟨rfl, rfl⟩

/-- Every state of a run is that of a phase. -/
theorem Passes.exists_reaches {s : State} (h : Passes text front s rest) :
    ∃ phase depth, s = phase.state depth ∧ Reaches front phase depth rest := by
  induction h with
  | start => exact ⟨.start, 0, rfl, .start⟩
  | @step front taken rest s next c _ hstep ih =>
      obtain ⟨phase, depth, rfl, hreaches⟩ := ih
      obtain ⟨phase', depth', hafter, rfl, htaken⟩ := after_of_step hstep
      refine ⟨phase', depth', rfl, ?_⟩
      by_cases hopener : Token.ofChar c = slash ∨ Token.ofChar c = quote
      · rw [if_pos hopener] at htaken
        obtain ⟨rfl, rfl, rfl⟩ := after_opener hopener hafter
        obtain ⟨value, tail, behind, hvalue, htext, hbehind, hlength, hends⟩ :=
          exists_value_of_span htaken
        obtain ⟨rfl, rfl⟩ := List.append_inj hbehind hlength.symm
        rw [← List.cons_append, ← htext] at hreaches
        rw [← htext]
        exact hreaches.literal hvalue hends
      · rw [if_neg hopener] at htaken
        obtain rfl := List.length_eq_zero_iff.1 htaken
        obtain ⟨hslash, hquote⟩ := not_or.1 hopener
        exact hreaches.char hslash hquote hafter

/-- What is gone over is gone over by a run. -/
theorem Reaches.passes (h : Reaches front phase depth rest) :
    Passes (front ++ rest) front (phase.state depth) rest := by
  induction h with
  | start => exact .start
  | char _ hslash hquote hafter ih =>
      rw [List.append_assoc]
      exact ih.char (step_char hslash hquote hafter _ _)
  | @literal front rest value depth _ hvalue hrest ih =>
      obtain ⟨opener, tail, htext, hstep⟩ :=
        @step_literal rest depth value hvalue hrest (front ++ (value.text ++ rest)) front.length
      rw [List.append_assoc]
      rw [htext] at ih hstep ⊢
      exact ih.step hstep

/-! ## How alternatives begin -/

/-- The alternatives that a text stops inside of. Of each it is known whether it begins with a bare
`#` or `:`, once anything of it has been written. -/
structure Heads where
  /-- Those that the open collections belong to, innermost first. -/
  outer : List (Option Bool)
  /-- The alternative at hand. -/
  current : Option Bool
  /-- Whether a constraint list is open. -/
  inList : Bool
deriving DecidableEq

namespace Heads

/-- Only the first character of an alternative is how it begins. -/
def write (h : Heads) (isBare : Bool) : Heads :=
  { h with current := some (h.current.getD isBare) }

/-- What follows a character. Bars and commas start an alternative, and so does the bracket of a
collection; behind its other bracket the alternative that it belongs to goes on. -/
def next (h : Heads) (token : Token) : Heads :=
  match h.inList, token with
  | true, closeParen => { h with inList := false }
  | true, _ => h
  | false, space => h
  | false, bar | false, comma => { h with current := none }
  | false, openAngle => { h with outer := h.current :: h.outer, current := none }
  | false, closeAngle => { h with outer := h.outer.tail, current := h.outer.head?.join }
  | false, openParen => { h.write false with inList := true }
  | false, .hash | false, colon => h.write true
  | false, _ => h.write false

end Heads

/-- How the alternatives begin that a text stops inside of. -/
def headsBehind (text : List Char) : Heads :=
  (unquoted text).foldl (fun h c => h.next (.ofChar c)) ⟨[], none, false⟩

/-- What is known in a phase of how the alternative at hand begins. -/
def Phase.begun? : Phase → Option Bool
  | start => none
  | bareMark | bareWord => some true
  | done isBare => some isBare
  | _ => some false

/-- In some phase, none of the alternatives with an open collection is bare. -/
def Phase.heads (phase : Phase) (depth : Nat) : Heads where
  outer := List.replicate depth (some false)
  current := phase.begun?
  inList := (phase.state depth).inList

theorem heads_after {phase' : Phase} {depth' : Nat} {token : Token}
    (hafter : phase.after depth token = some (phase', depth')) :
    (phase.heads depth).next token = phase'.heads depth' := by
  -- a comma and a closing angle ask whether a collection is open
  rcases depth with _ | depth
  · cases phase <;> cases token <;> cases hafter <;> rfl
  · cases phase <;> cases token <;> cases hafter <;> rfl

theorem Heads.next_inside {h : Heads} (hlist : h.inList = true) {token : Token}
    (htoken : token ≠ closeParen) : h.next token = h := by
  obtain ⟨outer, current, inList⟩ := h
  obtain rfl : inList = true := hlist
  cases token <;> first | rfl | contradiction

/-- Without a closing parenthesis nothing changes inside of a list. -/
theorem foldl_next_inside {chars : List Char} (hchars : ')' ∉ chars) {h : Heads}
    (hlist : h.inList = true) : chars.foldl (fun h c => h.next (.ofChar c)) h = h := by
  induction chars with
  | nil => rfl
  | cons c chars ih =>
      obtain ⟨hc, hrest⟩ := not_or.1 fun hmem => hchars (List.mem_cons.2 hmem)
      have htoken : Token.ofChar c ≠ closeParen := fun hcloser =>
        hc (eq_of_ofChar_eq hcloser rfl).symm
      rw [List.foldl_cons, Heads.next_inside hlist htoken]
      exact ih hrest

theorem Reaches.headsBehind_eq (h : Reaches front phase depth rest) :
    headsBehind front = phase.heads depth := by
  refine Reaches.unquoted_induction (motive := fun phase depth seen =>
    seen.foldl (fun h c => h.next (.ofChar c)) ⟨[], none, false⟩ = phase.heads depth)
    rfl ?_ ?_ h
  · intro phase phase' depth depth' seen c ih hafter
    rw [List.foldl_append, ih]
    exact heads_after hafter
  · intro depth seen flags ih hflags
    have hcloser : ')' ∉ flags := fun hmem => absurd (hflags _ hmem) (by decide)
    rw [List.foldl_append, ih, foldl_next_inside hcloser rfl]
    rfl

/-! ## Brackets -/

theorem count_angles_after {phase' : Phase} {depth' : Nat} {token : Token}
    (hafter : phase.after depth token = some (phase', depth')) :
    (if token = openAngle then 1 else 0) + depth =
      depth' + if token = closeAngle then 1 else 0 := by
  rcases depth with _ | depth
  · cases phase <;> cases token <;> cases hafter <;> rfl
  · cases phase <;> cases token <;> cases hafter <;> simp [Nat.add_comm]

/-- Every closing bracket of a collection has an opening one in front of it. -/
theorem Reaches.count_angles (h : Reaches front phase depth rest) :
    (unquoted front).count '<' = depth + (unquoted front).count '>' := by
  refine Reaches.unquoted_induction (motive := fun _ depth seen =>
    seen.count '<' = depth + seen.count '>') rfl ?_ ?_ h
  · intro phase phase' depth depth' seen c ih hafter
    have hcount := count_angles_after hafter
    have hopener : Token.ofChar c = openAngle ↔ c = '<' := ofChar_eq_iff rfl
    have hcloser : Token.ofChar c = closeAngle ↔ c = '>' := ofChar_eq_iff rfl
    simp only [hopener, hcloser] at hcount
    simp only [List.count_append, List.count_singleton, beq_iff_eq]
    omega
  · intro depth seen flags ih hflags
    have hnone : ∀ d ∉ literalFlags, flags.count d = 0 := by
      intro d hd
      exact List.count_eq_zero.2 fun hmem => hd (hflags d hmem)
    rw [List.count_append, List.count_append, ih, hnone _ (by decide), hnone _ (by decide),
      Nat.add_zero, Nat.add_zero]

/-! ## Coherence -/

/-- What the parts of a state have to do with each other and with the text behind the machine. -/
structure Coherent (front : List Char) (s : State) : Prop where
  lists_eq : s.lists = 0 ∨ s.lists = 1
  part_isSome_iff : s.part.isSome = true ↔ s.lists = 1
  barred_eq : s.barred = [] ∨ s.barred = notBehindBare
  barred_inside : s.lists = 1 → s.barred = []
  /-- Behind a bracket of a collection, and where an alternative or a pair starts. -/
  barred_behind : ∀ c ∈ front.getLast?, c ∈ ['|', '>', '<', ','] → s.barred = []
  /-- The alternative at hand begins with a bare `#` or `:`. -/
  isBare_iff : s.isBare = true ↔ (headsBehind front).current = some true
  /-- Every closing bracket of a collection has an opening one, and the others are open. -/
  count_angles : (unquoted front).count '<' = s.collections + (unquoted front).count '>'
  lists_of_finish : finish ∈ s.expected → s.lists = 0

/-- Whatever ends an alternative lifts what its beginning has barred. -/
theorem barred_after {phase' : Phase} {depth' : Nat} {token : Token}
    (hafter : phase.after depth token = some (phase', depth'))
    (htoken : token ∈ [bar, closeAngle, openAngle, comma]) : (phase'.state depth').barred = [] := by
  rcases depth with _ | depth
  · cases phase <;> cases token <;> cases hafter <;> first | rfl | exact absurd htoken (by decide)
  · cases phase <;> cases token <;> cases hafter <;> first | rfl | exact absurd htoken (by decide)

theorem Reaches.barred_eq_nil (h : Reaches front phase depth rest) {c : Char}
    (hlast : c ∈ front.getLast?) (hc : c ∈ ['|', '>', '<', ',']) :
    (phase.state depth).barred = [] := by
  cases h with
  | start => contradiction
  | @char _ _ _ _ _ _ d _ _ _ hafter =>
      obtain rfl : d = c := by simpa using hlast
      refine barred_after hafter ?_
      revert hc
      simp only [List.mem_cons, List.not_mem_nil, or_false]
      rintro (rfl | rfl | rfl | rfl) <;> decide
  | literal => rfl

theorem Phase.isBare_state (phase : Phase) (depth : Nat) :
    (phase.state depth).isBare = (phase.begun? == some true) := by
  cases phase with
  | done isBare => cases isBare <;> rfl
  | _ => rfl

/-- Outside of constraint lists nothing is known but what is barred; inside nothing is barred. -/
theorem Phase.state_cases (phase : Phase) (depth : Nat) :
    ((phase.state depth).lists = 0 ∧ (phase.state depth).part = none ∧
        ((phase.state depth).barred = [] ∨ (phase.state depth).barred = notBehindBare)) ∨
      (phase.state depth).lists = 1 ∧ (phase.state depth).part.isSome = true ∧
        (phase.state depth).barred = [] ∧ finish ∉ (phase.state depth).expected := by
  cases phase with
  | start | name | marked | slotted => exact .inl ⟨rfl, rfl, .inl rfl⟩
  | bareMark | bareWord => exact .inl ⟨rfl, rfl, .inr rfl⟩
  | done isBare =>
      cases isBare with
      | false => exact .inl ⟨rfl, rfl, .inl rfl⟩
      | true => exact .inl ⟨rfl, rfl, .inr rfl⟩
  | _ => exact .inr ⟨rfl, rfl, rfl, of_decide_eq_false rfl⟩

theorem Reaches.coherent (h : Reaches front phase depth rest) :
    Coherent front (phase.state depth) := by
  have hangles : (unquoted front).count '<' =
      (phase.state depth).collections + (unquoted front).count '>' := by
    rw [h.count_angles, phase.collections_state]
  have hbare : (phase.state depth).isBare = true ↔ (headsBehind front).current = some true := by
    rw [h.headsBehind_eq, phase.isBare_state, beq_iff_eq]
    rfl
  rcases phase.state_cases depth with ⟨hlists, hpart, hbarred⟩ | ⟨hlists, hpart, hbarred, hfinish⟩
  · exact ⟨.inl hlists, by simp [hpart, hlists], hbarred, by simp [hlists],
      fun _ hlast hc => h.barred_eq_nil hlast hc, hbare, hangles, fun _ => hlists⟩
  · exact ⟨.inr hlists, by simp [hpart, hlists], .inl hbarred, fun _ => hbarred,
      fun _ _ _ => hbarred, hbare, hangles, fun hmem => absurd hmem hfinish⟩

/-- What a closing bracket takes away is there. -/
theorem closers_after {phase' : Phase} {depth' : Nat} {token : Token}
    (hafter : phase.after depth token = some (phase', depth')) :
    (token = closeAngle →
        (phase'.state depth').collections + 1 = (phase.state depth).collections) ∧
      (token = closeParen → (phase'.state depth').lists + 1 = (phase.state depth).lists) := by
  constructor
  · rintro rfl
    rw [phase.collections_state, phase'.collections_state]
    simpa using (count_angles_after hafter).symm
  · rintro rfl
    cases phase <;> cases hafter <;> rfl

theorem closers_step {s' : State} {index used : Nat} {c : Char} {behind : List Char}
    (hstep : step text index (phase.state depth) c behind = .ok (s', used)) :
    (c = '>' → s'.collections + 1 = (phase.state depth).collections) ∧
      (c = ')' → s'.lists + 1 = (phase.state depth).lists) := by
  obtain ⟨phase', depth', hafter, rfl, -⟩ := after_of_step hstep
  obtain ⟨hangle, hparen⟩ := closers_after hafter
  constructor
  · rintro rfl
    exact hangle rfl
  · rintro rfl
    exact hparen rfl

/-- Every state that the check of a definition comes by is coherent, and no closing bracket is
counted there that is not open. -/
theorem coherent_of_passes {definition : String} {s : State}
    (h : Passes definition.toList front s rest) :
    front ++ rest = definition.toList ∧
      (definition ≠ "" → validate definition =
        Text.scan (step definition.toList) front.length 0 s rest >>= conclude definition.toList) ∧
      Coherent front s ∧
      ∀ c behind s' used, step definition.toList front.length s c behind = .ok (s', used) →
        (c = '>' → s'.collections + 1 = s.collections) ∧ (c = ')' → s'.lists + 1 = s.lists) := by
  obtain ⟨phase, depth, rfl, hreaches⟩ := h.exists_reaches
  refine ⟨h.append_eq, fun hne => h.check_eq ?_, hreaches.coherent, fun _ _ _ _ => closers_step⟩
  exact fun hnil => hne (String.toList_eq_nil_iff.1 hnil)

/-- Behind a bare constraint, a quoted bracket and a comma. -/
theorem coherent_of_passes_quoted :
    let definition := "#a|B<C(x:\"<\",y:1)>"
    let front := ['#', 'a', '|', 'B', '<', 'C', '(', 'x', ':', '"', '<', '"', ',']
    let s : State := ⟨atPair, [], 1, 1, some .start⟩
    Passes definition.toList front s ['y', ':', '1', ')', '>'] ∧ Coherent front s := by
  intro definition front s
  have htext : definition.toList = ['#', 'a', '|', 'B', '<', 'C', '(', 'x', ':', '"', '<', '"', ',',
      'y', ':', '1', ')', '>'] := by decide
  have hstart : ∀ {rest}, definition.toList = rest →
      Passes definition.toList [] State.initial rest := by
    rintro _ rfl
    exact .start
  have hname := ((((hstart htext).char rfl).char rfl).char rfl).char rfl
  have hvalue := ((((hname.char rfl).char rfl).char rfl).char rfl).char rfl
  have hquoted := @Text.Passes.step _ _ _ _ _ _ ['<', '"'] _ _ _ _ hvalue rfl
  have hpasses : Passes definition.toList front s ['y', ':', '1', ')', '>'] := hquoted.char rfl
  exact ⟨hpasses, (coherent_of_passes hpasses).2.2.1⟩

end DynTypes.Grammar
