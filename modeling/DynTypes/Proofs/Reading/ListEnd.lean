import DynTypes.Proofs.Grammar.Coherence
import DynTypes.Proofs.Grammar.Soundness
import DynTypes.Proofs.Reading.Pairs
/-!
# Where a constraint list ends

A constraint list ends at the first closing parenthesis that stands outside of literals. It is
there that its pairs are all written, and there that the grammar machine leaves the list.
-/

namespace DynTypes

namespace Outline

/-! ## Texts that end no list -/

/-- The text leads outside of literals again and has no closing parenthesis there. -/
structure Sealed (text : List Char) : Prop where
  place_eq : placeBehind .outside text = .outside
  closeParen_not_mem : ')' ∉ unquoted text

namespace Sealed

variable {text other : List Char}

theorem append (h : Sealed text) (hother : Sealed other) : Sealed (text ++ other) where
  place_eq := by rw [placeBehind_append, h.place_eq, hother.place_eq]
  closeParen_not_mem := by
    rw [unquoted_append h.place_eq, List.mem_append, not_or]
    exact ⟨h.closeParen_not_mem, hother.closeParen_not_mem⟩

theorem of_isPlain (h : ∀ c ∈ text, Constraints.IsPlain c) : Sealed text := by
  have hundelimited : Undelimited text := by
    intro c hc
    obtain ⟨-, hnone⟩ := h c hc
    constructor
    · rintro rfl
      contradiction
    · rintro rfl
      contradiction
  refine ⟨hundelimited.place.1, ?_⟩
  rw [hundelimited.place.2]
  intro hmem
  exact (h _ hmem).1.1 rfl

theorem value (value : Value) : Sealed value.text := by
  cases hvalue : value.isLiteral with
  | false =>
      cases value with
      | bare token =>
          exact of_isPlain fun c hc =>
            Constraints.isPlain_of_isTokenChar (token.allowed_of_mem c hc)
      | quoted body units_body => contradiction
      | regex body flags units_body body_ne_nil flags_subset => contradiction
  | true =>
      obtain ⟨hplace, hflags⟩ := Value.place_text hvalue
      exact ⟨hplace, fun hmem => absurd (hflags _ hmem) (by decide)⟩

theorem pair {pair : Pair} (hpair : pair.Spells text) : Sealed text := by
  obtain hplain | ⟨front, written, back, rfl, hfront, hback⟩ := Constraints.exists_parts hpair
  · exact of_isPlain hplain
  · refine ((of_isPlain hfront).append (value written)).append (of_isPlain fun c hc => ?_)
    exact Constraints.isPlain_of_isWhiteSpace (hback c hc)

theorem comma : Sealed [','] where
  place_eq := rfl
  closeParen_not_mem := by decide

theorem pairs {pairs : List Pair} (hpairs : PairsSpell pairs text) : Sealed text := by
  induction hpairs with
  | last hpair => exact pair hpair
  | more hpair _ ih => exact (pair hpair).append (comma.append ih)

theorem not_append_closeParen (h : Sealed text) (rest : List Char) :
    ¬ Sealed (text ++ ')' :: rest) := by
  intro hsealed
  have hparen : unquoted (')' :: rest) = ')' :: unquoted rest := @unquoted_append [')'] rfl rest
  apply hsealed.closeParen_not_mem
  rw [unquoted_append h.place_eq, hparen]
  exact List.mem_append_right _ List.mem_cons_self

/-- No two closing parentheses are the first outside of literals. -/
theorem eq_of_append_eq {rest rest' : List Char} (h : Sealed text) (hother : Sealed other)
    (heq : text ++ ')' :: rest = other ++ ')' :: rest') : text = other ∧ rest = rest' := by
  obtain ⟨more, rfl, hmore⟩ | ⟨more, rfl, hmore⟩ := List.append_eq_append_iff.1 heq
  · cases more with
    | nil => simpa using hmore
    | cons c more =>
        obtain ⟨rfl, -⟩ := List.cons.inj hmore
        exact absurd hother (h.not_append_closeParen more)
  · cases more with
    | nil => simpa using hmore.symm
    | cons c more =>
        obtain ⟨rfl, -⟩ := List.cons.inj hmore
        exact absurd h (hother.not_append_closeParen more)

end Sealed

end Outline

namespace Grammar

open Outline Token

variable {text front rest : List Char} {phase next : Phase} {depth opened : Nat}

/-! ## Where the machine leaves a list -/

theorem after_closeParen (hafter : phase.after depth closeParen = some (next, opened)) :
    next = .done false ∧ opened = depth := by
  cases phase <;> cases hafter <;> exact ⟨rfl, rfl⟩

theorem after_openParen (hafter : phase.after depth openParen = some (next, opened)) :
    next = .pair ∧ opened = depth := by
  cases phase <;> cases hafter <;> exact ⟨rfl, rfl⟩

/-- Only a closing parenthesis leads out of a list. -/
theorem lists_after (hlist : (phase.state depth).lists = 1) {token : Token}
    (htoken : token ≠ closeParen) (hafter : phase.after depth token = some (next, opened)) :
    (next.state opened).lists = 1 ∧ opened = depth := by
  cases phase <;> cases hlist <;> cases token <;> cases hafter <;>
    first | exact ⟨rfl, rfl⟩ | contradiction

/-- Inside of a list, an accepted text goes on to the end of the list. -/
theorem Reaches.exists_closeParen (h : Reaches front phase depth rest)
    (haccepts : Accepts phase depth rest) (hlist : (phase.state depth).lists = 1) :
    ∃ inner behind last, rest = inner ++ ')' :: behind ∧ Sealed inner ∧
      Reaches (front ++ inner) last depth (')' :: behind) ∧
      Reaches (front ++ inner ++ [')']) (.done false) depth behind := by
  induction haccepts generalizing front with
  | @finish phase hend => cases phase <;> contradiction
  | @char phase next depth opened c rest hslash hquote hafter hrest ih =>
      have hreaches := h.char hslash hquote hafter
      by_cases hcloser : Token.ofChar c = closeParen
      · obtain rfl : c = ')' := eq_of_ofChar_eq hcloser rfl
        obtain ⟨rfl, rfl⟩ := after_closeParen hafter
        rw [← List.append_nil front] at h hreaches
        exact ⟨[], rest, phase, rfl, ⟨rfl, List.not_mem_nil⟩, h, hreaches⟩
      · obtain ⟨hnext, rfl⟩ := lists_after hlist hcloser hafter
        obtain ⟨inner, behind, last, rfl, hsealed, hbefore, hbehind⟩ := ih hreaches hnext
        have hc : Sealed [c] := by
          have houtside := next_outside hslash hquote
          refine ⟨houtside, ?_⟩
          rw [unquoted_singleton houtside, List.mem_singleton]
          rintro rfl
          exact hcloser rfl
        rw [List.append_assoc front] at hbefore hbehind
        exact ⟨c :: inner, behind, last, rfl, hc.append hsealed, hbefore, hbehind⟩
  | @literal value depth rest hvalue hrest ih =>
      have hreaches := h.literal hvalue (hrest.startsWithoutFlag.endsBefore value)
      obtain ⟨inner, behind, last, rfl, hsealed, hbefore, hbehind⟩ := ih hreaches rfl
      rw [List.append_assoc front] at hbefore hbehind
      refine ⟨value.text ++ inner, behind, last, ?_, (Sealed.value value).append hsealed, hbefore,
        hbehind⟩
      rw [List.append_assoc]

/-- The run over `text` is inside of one constraint list from the parenthesis behind `front` on, and
leaves it at the parenthesis in front of `rest`. -/
structure ListSpan (text front inner rest : List Char) : Prop where
  inside : ∀ part s more, part <+: inner → Passes text (front ++ '(' :: part) s more → s.lists = 1
  before : ∃ s, Passes text (front ++ '(' :: inner) s (')' :: rest)
  behind : ∃ s, Passes text (front ++ '(' :: inner ++ [')']) s rest ∧ s.lists = 0

/-- Without a closing parenthesis outside of literals a list is not left. -/
theorem Reaches.lists_eq_one {part more : List Char}
    (hopen : Reaches (front ++ ['(']) .pair depth rest)
    (h : Reaches (front ++ '(' :: part) phase opened more) (hpart : ')' ∉ unquoted part) :
    (phase.state opened).lists = 1 := by
  have hheads : headsBehind (front ++ ['('] ++ part) = headsBehind (front ++ ['(']) := by
    rw [headsBehind, unquoted_append hopen.placeBehind_eq, List.foldl_append]
    refine foldl_next_inside hpart ?_
    change (headsBehind (front ++ ['('])).inList = true
    rw [hopen.headsBehind_eq]
    rfl
  rw [← List.singleton_append, ← List.append_assoc] at h
  have hlist : (phase.state opened).inList = true := by
    change (phase.heads opened).inList = true
    rw [← h.headsBehind_eq, hheads, hopen.headsBehind_eq]
    rfl
  rcases phase.state_cases opened with ⟨hlists, -⟩ | ⟨hlists, -⟩
  · rw [State.inList, hlists] at hlist
    contradiction
  · exact hlists

/-- Behind an opening parenthesis stand the pairs of a list and the parenthesis at which the machine
leaves it. -/
theorem Reaches.exists_listSpan {behind : List Char}
    (h : Reaches front phase depth ('(' :: behind))
    (haccepts : Accepts phase depth ('(' :: behind)) :
    ∃ (pairs : List Pair) (inner rest : List Char), behind = inner ++ ')' :: rest ∧
      PairsSpell pairs inner ∧ Reaches (front ++ '(' :: inner ++ [')']) (.done false) depth rest ∧
      ListSpan (front ++ '(' :: behind) front inner rest := by
  obtain ⟨next, opened, hafter, hrest⟩ := haccepts.exists_after (by decide)
  obtain ⟨rfl, rfl⟩ := after_openParen hafter
  have hopen : Reaches (front ++ ['(']) .pair opened behind := h.char (by decide) (by decide) hafter
  obtain ⟨inner, rest, last, rfl, hsealed, hbefore, hbehind⟩ := hopen.exists_closeParen hrest rfl
  obtain ⟨pairs, written, others, heq, hpairs, -⟩ := exists_pairs hrest
  -- both closing parentheses are the first outside of literals
  obtain ⟨rfl, rfl⟩ := hsealed.eq_of_append_eq (Sealed.pairs hpairs) heq
  have hassoc : front ++ ['('] ++ inner = front ++ '(' :: inner := by simp
  rw [hassoc] at hbefore hbehind
  refine ⟨pairs, inner, rest, rfl, hpairs, hbehind, ?_, ?_, ?_⟩
  · rintro part s more ⟨others, rfl⟩ hpasses
    obtain ⟨phase, depth, rfl, hreaches⟩ := hpasses.exists_reaches
    refine hopen.lists_eq_one hreaches fun hmem => hsealed.closeParen_not_mem ?_
    rw [unquoted, unquotedFrom_append]
    exact List.mem_append_left _ hmem
  · have hpasses := hbefore.passes
    rw [List.append_assoc] at hpasses
    exact ⟨_, hpasses⟩
  · have hpasses := hbehind.passes
    rw [List.append_assoc, List.append_assoc, List.singleton_append] at hpasses
    exact ⟨_, hpasses, rfl⟩

end Grammar

end DynTypes
