import DynTypes.Proofs.Grammar.Completeness
/-!
# What keeps the grammar is a spelling

A text that is accepted in front of some construct starts with a spelling of that construct, and
the rest is accepted behind it. Words and constraint lists come first; slots call for sums again,
so the sums are found by induction on the length of the text.
-/

namespace DynTypes.Grammar

open Outline Token

variable {phase : Phase} {depth : Nat} {text : List Char}

/-! ## Runs of characters -/

/-- The longest run of characters that lead from a phase to itself comes off in front. -/
theorem Accepts.exists_run {allowed : Char → Bool}
    (hloop : ∀ c, allowed c = true → phase.after depth (.ofChar c) = some (phase, depth))
    (h : Accepts phase depth text) :
    ∃ run rest, text = run ++ rest ∧ (∀ c ∈ run, allowed c = true) ∧ Accepts phase depth rest ∧
      ∀ c ∈ rest.head?, allowed c = false := by
  induction text with
  | nil => exact ⟨[], [], rfl, by simp, h, by simp⟩
  | cons c text ih =>
      cases hc : allowed c with
      | false => exact ⟨[], c :: text, rfl, by simp, h, by simpa using hc⟩
      | true =>
          have hrest : Accepts phase depth text :=
            h.of_cons (hloop c hc) (by rintro rfl; decide)
          obtain ⟨run, rest, rfl, hrun, haccepts, hhead⟩ := ih hrest
          refine ⟨c :: run, rest, rfl, ?_, haccepts, hhead⟩
          simpa [hc] using hrun

theorem Accepts.exists_blank (hspace : phase.after depth space = some (phase, depth))
    (h : Accepts phase depth text) :
    ∃ blank rest, text = blank ++ rest ∧ Blank blank ∧ Accepts phase depth rest ∧
      ∀ c ∈ rest.head?, Token.ofChar c ≠ space := by
  have hloop : ∀ c, Text.isWhiteSpace c = true →
      phase.after depth (.ofChar c) = some (phase, depth) := by
    intro c hc
    rw [ofChar_eq_space_iff.2 hc]
    exact hspace
  obtain ⟨blank, rest, rfl, hblank, hrest, hhead⟩ := h.exists_run hloop
  refine ⟨blank, rest, rfl, hblank, hrest, fun c hc hspace => ?_⟩
  rw [ofChar_eq_space_iff, hhead c hc] at hspace
  contradiction

/-- In front of a word, all of the word comes off. -/
theorem Accepts.exists_word {allowed : Char → Bool} {next : Phase} {c : Char}
    (hc : allowed c = true) (hnext : next ≠ .closed false)
    (hfirst : phase.after depth (.ofChar c) = some (next, depth))
    (hloop : ∀ d, allowed d = true → next.after depth (.ofChar d) = some (next, depth))
    (h : Accepts phase depth (c :: text)) :
    ∃ (word : Word allowed) (rest : List Char), c :: text = word.chars ++ rest ∧
      Accepts next depth rest ∧ ∀ d ∈ rest.head?, allowed d = false := by
  obtain ⟨run, rest, rfl, hrun, hrest, hhead⟩ := (h.of_cons hfirst fun _ => hnext).exists_run hloop
  have hall : ∀ d ∈ c :: run, allowed d = true := by simpa [hc] using hrun
  exact ⟨⟨c :: run, List.cons_ne_nil c run, hall⟩, rest, rfl, hrest, hhead⟩

theorem not_mem_of_not_isMethodChar (h : ∀ c ∈ text.head?, isMethodChar c = false) :
    ∀ c ∈ text.head?, Token.ofChar c ∉ [other, question] := by
  intro c hc hmem
  have hmethod : isMethodChar c = true := isMethodChar_iff.2 (by simpa using hmem)
  rw [h c hc] at hmethod
  contradiction

theorem not_mem_of_not_isTokenChar (h : ∀ c ∈ text.head?, isTokenChar c = false) :
    ∀ c ∈ text.head?, Token.ofChar c ∉ [other, question, .hash, colon] := by
  intro c hc hmem
  have htoken : isTokenChar c = true := isTokenChar_iff.2 (by simpa using hmem)
  rw [h c hc] at htoken
  contradiction

/-- Behind the `#` of a pair or the mark of a bare constraint stands a word. -/
theorem exists_first_methodChar (hphase : phase = .hash ∨ phase = .bareMark)
    (h : Accepts phase depth text) : ∃ c rest, text = c :: rest ∧ isMethodChar c = true := by
  cases h with
  | finish hend => obtain rfl | rfl := hphase <;> contradiction
  | literal => obtain hgap | hgap := hphase <;> contradiction
  | @char _ _ _ _ c rest _ _ hafter _ =>
      refine ⟨c, rest, rfl, isMethodChar_iff.2 ?_⟩
      obtain rfl | rfl := hphase
      · cases hc : Token.ofChar c <;> rw [hc] at hafter <;> first | contradiction | simp
      · cases hc : Token.ofChar c <;> rw [hc] at hafter <;> first | contradiction | simp

theorem exists_method (h : Accepts .hash depth text) :
    ∃ (word : Word isMethodChar) (rest : List Char), text = word.chars ++ rest ∧
      Accepts (.closed true) depth rest := by
  obtain ⟨c, rest, rfl, hc⟩ := exists_first_methodChar (.inl rfl) h
  obtain ⟨word, rest, htext, hrest, hhead⟩ := h.exists_word hc (by decide)
    (after_methodChar hc rfl rfl) (fun d hd => after_methodChar hd rfl rfl)
  exact ⟨word, rest, htext, hrest.base rfl (not_mem_of_not_isMethodChar hhead)⟩

theorem exists_bare (h : Accepts .bareMark depth text) :
    ∃ (word : Word isMethodChar) (rest : List Char), text = word.chars ++ rest ∧
      Accepts (.done true) depth rest := by
  obtain ⟨c, rest, rfl, hc⟩ := exists_first_methodChar (.inr rfl) h
  obtain ⟨word, rest, htext, hrest, hhead⟩ := h.exists_word hc (by decide)
    (after_methodChar hc rfl rfl) (fun d hd => after_methodChar hd rfl rfl)
  exact ⟨word, rest, htext, hrest.base rfl (not_mem_of_not_isMethodChar hhead)⟩

/-! ## Constraint lists -/

theorem exists_token_of_cons {c : Char} (hphase : phase = .colon ∨ phase = .gap)
    (hc : isTokenChar c = true) (h : Accepts phase depth (c :: text)) :
    ∃ (word : Word isTokenChar) (rest : List Char), c :: text = word.chars ++ rest ∧
      Accepts (.closed false) depth rest := by
  have hfirst : phase.after depth (.ofChar c) = some (.token, depth) := by
    obtain rfl | rfl := hphase
    · exact after_tokenChar hc rfl rfl rfl rfl
    · exact after_tokenChar hc rfl rfl rfl rfl
  obtain ⟨word, rest, htext, hrest, hhead⟩ := h.exists_word hc (by decide) hfirst
    (fun d hd => after_tokenChar hd rfl rfl rfl rfl)
  exact ⟨word, rest, htext, hrest.base rfl (not_mem_of_not_isTokenChar hhead)⟩

theorem exists_token (h : Accepts .colon depth text) :
    ∃ (word : Word isTokenChar) (rest : List Char), text = word.chars ++ rest ∧
      Accepts (.closed false) depth rest := by
  cases h with
  | finish hend => contradiction
  | @char _ _ _ _ c rest hslash hquote hafter hrest =>
      have hc : isTokenChar c = true := by
        rw [isTokenChar_iff]
        cases htoken : Token.ofChar c <;> rw [htoken] at hafter <;> first | contradiction | simp
      exact exists_token_of_cons (.inl rfl) hc (.char hslash hquote hafter hrest)

theorem exists_value (h : Accepts .gap depth text) :
    ∃ (gap : List Char) (value : Value) (rest : List Char), text = gap ++ value.text ++ rest ∧
      Blank gap ∧ Accepts (.closed false) depth rest := by
  obtain ⟨gap, behind, rfl, hgap, hbehind, hhead⟩ := h.exists_blank rfl
  cases hbehind with
  | finish hend => contradiction
  | @literal value _ rest hvalue hrest => exact ⟨gap, value, rest, by simp, hgap, hrest⟩
  | @char _ _ _ _ c rest hslash hquote hafter hrest =>
      have hspace := hhead c rfl
      have hc : isTokenChar c = true := by
        rw [isTokenChar_iff]
        cases htoken : Token.ofChar c <;> rw [htoken] at hafter hspace hslash hquote <;>
          first | contradiction | simp
      obtain ⟨word, rest, htext, hrest⟩ :=
        exists_token_of_cons (.inr rfl) hc (.char hslash hquote hafter hrest)
      exact ⟨gap, .bare word, rest, by rw [htext]; simp [Value.text], hgap, hrest⟩

theorem exists_identifier {c : Char} (hc : isMethodChar c = true)
    (h : Accepts .pair depth (c :: text)) :
    ∃ (word : Word isMethodChar) (rest : List Char), c :: text = word.chars ++ ':' :: rest ∧
      Accepts .gap depth rest := by
  obtain ⟨word, behind, htext, hbehind, hhead⟩ := h.exists_word hc (by decide)
    (after_methodChar hc rfl rfl) (fun d hd => after_methodChar hd rfl rfl)
  cases hbehind with
  | finish hend => contradiction
  | @char _ _ _ _ d rest _ _ hafter hrest =>
      have hd := not_mem_of_not_isMethodChar hhead d rfl
      have htoken : Token.ofChar d = colon := by
        cases htoken : Token.ofChar d <;> rw [htoken] at hafter hd <;>
          first | rfl | contradiction
      rw [htoken] at hafter
      cases hafter
      obtain rfl : d = ':' := eq_of_ofChar_eq htoken rfl
      exact ⟨word, rest, htext, hrest⟩

theorem exists_first_of_pair (h : Accepts .pair depth text)
    (hhead : ∀ c ∈ text.head?, Token.ofChar c ≠ space) :
    ∃ c rest, text = c :: rest ∧ (c = '#' ∨ c = ':' ∨ isMethodChar c = true) := by
  cases h with
  | finish hend => contradiction
  | @char _ _ _ _ c rest _ _ hafter _ =>
      refine ⟨c, rest, rfl, ?_⟩
      have hspace := hhead c rfl
      rw [isMethodChar_iff]
      cases htoken : Token.ofChar c <;> rw [htoken] at hafter hspace <;> try contradiction
      case hash => exact .inl (eq_of_ofChar_eq htoken rfl)
      case colon => exact .inr (.inl (eq_of_ofChar_eq htoken rfl))
      all_goals simp

/-- In front of a pair, all of it comes off, with the white space around it. -/
theorem exists_pair (h : Accepts .pair depth text) :
    ∃ (pair : Pair) (front rest : List Char) (isMethod : Bool), text = front ++ rest ∧
      pair.Spells front ∧ Accepts (.closed isMethod) depth rest ∧
      ∀ c ∈ rest.head?, Token.ofChar c ≠ space := by
  obtain ⟨left, behind, rfl, hleft, hpair, hhead⟩ := h.exists_blank rfl
  obtain ⟨c, behind, rfl, rfl | rfl | hc⟩ := exists_first_of_pair hpair hhead
  · obtain ⟨word, behind, rfl, hword⟩ := exists_method (hpair.of_cons rfl (by decide))
    obtain ⟨right, rest, rfl, hright, hrest, hend⟩ := hword.exists_blank rfl
    exact ⟨.method word, _, rest, true, by simp, .method hleft hright, hrest, hend⟩
  · obtain ⟨word, behind, rfl, hword⟩ := exists_token (hpair.of_cons rfl (by decide))
    obtain ⟨right, rest, rfl, hright, hrest, hend⟩ := hword.exists_blank rfl
    exact ⟨.token word, _, rest, false, by simp, .token hleft hright, hrest, hend⟩
  · obtain ⟨word, behind, htext, hgap⟩ := exists_identifier hc hpair
    obtain ⟨gap, value, behind, rfl, hblank, hvalue⟩ := exists_value hgap
    obtain ⟨right, rest, rfl, hright, hrest, hend⟩ := hvalue.exists_blank rfl
    exact ⟨.value word value, _, rest, false, by rw [htext]; simp,
      .value hleft hblank hright, hrest, hend⟩

/-- Behind a pair, a comma or the end of the list follows. -/
theorem Accepts.of_closed {isMethod : Bool} (h : Accepts (.closed isMethod) depth text)
    (hhead : ∀ c ∈ text.head?, Token.ofChar c ≠ space) :
    ∃ rest, (text = ',' :: rest ∧ Accepts .pair depth rest) ∨
      (text = ')' :: rest ∧ Accepts (.done false) depth rest) := by
  cases h with
  | finish hend => contradiction
  | @char _ _ _ _ c rest _ _ hafter hrest =>
      refine ⟨rest, ?_⟩
      have hspace := hhead c rfl
      cases htoken : Token.ofChar c <;> rw [htoken] at hafter hspace <;> try contradiction
      case comma =>
        cases hafter
        exact .inl ⟨by rw [eq_of_ofChar_eq htoken rfl], hrest⟩
      case closeParen =>
        cases hafter
        exact .inr ⟨by rw [eq_of_ofChar_eq htoken rfl], hrest⟩

theorem exists_pairs (h : Accepts .pair depth text) :
    ∃ (pairs : List Pair) (front rest : List Char), text = front ++ ')' :: rest ∧
      PairsSpell pairs front ∧ Accepts (.done false) depth rest := by
  induction hn : text.length using Nat.strongRecOn generalizing text with
  | ind n ih =>
  obtain ⟨pair, front, behind, isMethod, rfl, hpair, hbehind, hhead⟩ := exists_pair h
  obtain ⟨rest, ⟨rfl, hrest⟩ | ⟨rfl, hrest⟩⟩ := hbehind.of_closed hhead
  · have hlength : rest.length < n := by
      rw [← hn, List.length_append, List.length_cons]
      omega
    obtain ⟨pairs, others, rest, rfl, hpairs, hrest⟩ := ih rest.length hlength hrest rfl
    exact ⟨pair :: pairs, front ++ ',' :: others, rest, by simp, .more hpair hpairs, hrest⟩
  · exact ⟨[pair], front, rest, rfl, .last hpair, hrest⟩

theorem exists_list (h : Accepts .slotted depth text) :
    ∃ (pairs : List Pair) (front rest : List Char), text = front ++ rest ∧
      ListSpells pairs front ∧ Accepts (.done false) depth rest := by
  by_cases hparen : text.head? = some '('
  · obtain ⟨text, rfl⟩ := List.head?_eq_some_iff.1 hparen
    obtain ⟨pairs, front, rest, rfl, hpairs, hrest⟩ := exists_pairs (h.of_cons rfl (by decide))
    exact ⟨pairs, _, rest, by simp, .present hpairs, hrest⟩
  · refine ⟨[], [], text, rfl, .absent, h.base rfl fun c hc hown => hparen ?_⟩
    rw [← eq_of_ofChar_eq (List.mem_singleton.1 hown) rfl]
    exact hc

/-! ## Alternatives and sums -/

/-- What may follow a sum: the end of the text, another slot, or the end of the slots. -/
inductive Follows : Nat → List Char → Prop where
  | finish : Follows 0 []
  | comma {depth : Nat} {rest : List Char} (hrest : Accepts .start (depth + 1) rest) :
      Follows (depth + 1) (',' :: rest)
  | close {depth : Nat} {rest : List Char} (hrest : Accepts .slotted depth rest) :
      Follows (depth + 1) ('>' :: rest)

/-- Behind an alternative, another one follows or the sum ends. -/
theorem Accepts.of_done {isBare : Bool} (h : Accepts (.done isBare) depth text)
    (hhead : ∀ c ∈ text.head?, Token.ofChar c ≠ space) :
    (∃ rest, text = '|' :: rest ∧ Accepts .start depth rest) ∨ Follows depth text := by
  cases h with
  | finish hend => exact .inr .finish
  | @char _ _ _ _ c rest _ _ hafter hrest =>
      have hspace := hhead c rfl
      cases htoken : Token.ofChar c <;> rw [htoken] at hafter hspace <;> try contradiction
      case bar =>
        cases hafter
        exact .inl ⟨rest, by rw [eq_of_ofChar_eq htoken rfl], hrest⟩
      case closeAngle =>
        obtain rfl : c = '>' := eq_of_ofChar_eq htoken rfl
        cases depth with
        | zero => contradiction
        | succ depth =>
            cases hafter
            exact .inr (.close hrest)
      case comma =>
        obtain rfl : c = ',' := eq_of_ofChar_eq htoken rfl
        cases depth with
        | zero => contradiction
        | succ depth =>
            cases hafter
            exact .inr (.comma hrest)

/-- Accepted texts of fewer than some number of characters start with a sum. -/
def SumsBelow (n : Nat) : Prop :=
  ∀ (text : List Char) (depth : Nat), text.length < n → Accepts .start depth text →
    ∃ (d : Outline) (front rest : List Char), text = front ++ rest ∧ Spells d front ∧
      Follows depth rest

theorem SumsBelow.mono {m n : Nat} (h : SumsBelow n) (hle : m ≤ n) : SumsBelow m :=
  fun text depth hlength => h text depth (Nat.lt_of_lt_of_le hlength hle)

theorem exists_series {n : Nat} (hsums : SumsBelow n) (hn : text.length < n)
    (h : Accepts .start (depth + 1) text) :
    ∃ (slots : List Outline) (front rest : List Char), text = front ++ '>' :: rest ∧
      SeriesSpells slots front ∧ Accepts .slotted depth rest := by
  induction hk : text.length using Nat.strongRecOn generalizing text with
  | ind k ih =>
  obtain ⟨slot, front, behind, rfl, hslot, hbehind⟩ := hsums text (depth + 1) hn h
  cases hbehind with
  | close hrest => exact ⟨[slot], front, _, rfl, .last hslot, hrest⟩
  | @comma _ rest hrest =>
      have hlength : rest.length < k := by
        rw [← hk, List.length_append, List.length_cons]
        omega
      obtain ⟨slots, others, rest, rfl, hslots, hrest⟩ :=
        ih rest.length hlength (by omega) hrest rfl
      exact ⟨slot :: slots, front ++ ',' :: others, rest, by simp, .more hslot hslots, hrest⟩

theorem exists_slots (hsums : SumsBelow text.length) (h : Accepts .marked depth text) :
    ∃ (slots : List Outline) (front rest : List Char), text = front ++ rest ∧
      SlotsSpell slots front ∧ Accepts .slotted depth rest := by
  by_cases hangle : text.head? = some '<'
  · obtain ⟨text, rfl⟩ := List.head?_eq_some_iff.1 hangle
    have hn : text.length < ('<' :: text).length := by simp
    obtain ⟨slots, front, rest, rfl, hslots, hrest⟩ :=
      exists_series hsums hn (h.of_cons rfl (by decide))
    exact ⟨slots, _, rest, by simp, .present hslots, hrest⟩
  · refine ⟨[], [], text, rfl, .absent, h.base rfl fun c hc hown => hangle ?_⟩
    rw [← eq_of_ofChar_eq (List.mem_singleton.1 hown) rfl]
    exact hc

theorem exists_mark (h : Accepts .name depth text)
    (hhead : ∀ c ∈ text.head?, isNameChar c = false) :
    ∃ optional rest, text = mark optional ++ rest ∧ Accepts .marked depth rest := by
  by_cases hquestion : text.head? = some '?'
  · obtain ⟨text, rfl⟩ := List.head?_eq_some_iff.1 hquestion
    exact ⟨true, text, rfl, h.of_cons rfl (by decide)⟩
  · refine ⟨false, text, rfl, h.base rfl fun c hc hown => hquestion ?_⟩
    have hother : Token.ofChar c ≠ other := by
      intro hother
      rw [ofChar_eq_other_iff, hhead c hc] at hother
      contradiction
    have htoken : Token.ofChar c = question := by
      simpa [Phase.own, hother] using hown
    rw [← eq_of_ofChar_eq htoken rfl]
    exact hc

theorem exists_first_of_start (h : Accepts .start depth text)
    (hhead : ∀ c ∈ text.head?, Token.ofChar c ≠ space) :
    ∃ c rest, text = c :: rest ∧ (c = '#' ∨ c = ':' ∨ c = '(' ∨ isNameChar c = true) := by
  cases h with
  | finish hend => contradiction
  | @char _ _ _ _ c rest _ _ hafter _ =>
      refine ⟨c, rest, rfl, ?_⟩
      have hspace := hhead c rfl
      rw [← ofChar_eq_other_iff]
      cases htoken : Token.ofChar c <;> rw [htoken] at hafter hspace <;> try contradiction
      case hash => exact .inl (eq_of_ofChar_eq htoken rfl)
      case colon => exact .inr (.inl (eq_of_ofChar_eq htoken rfl))
      case openParen => exact .inr (.inr (.inl (eq_of_ofChar_eq htoken rfl)))
      case other => simp

theorem exists_element (hsums : SumsBelow text.length) (h : Accepts .start depth text)
    (hhead : ∀ c ∈ text.head?, Token.ofChar c ≠ space) :
    ∃ (e : Outline.Element) (front rest : List Char) (isBare : Bool), text = front ++ rest ∧
      ElementSpells e front ∧ Accepts (.done isBare) depth rest := by
  obtain ⟨c, behind, rfl, rfl | rfl | rfl | hc⟩ := exists_first_of_start h hhead
  · obtain ⟨word, rest, rfl, hrest⟩ := exists_bare (h.of_cons rfl (by decide))
    exact ⟨.method word, _, rest, true, rfl, .method, hrest⟩
  · obtain ⟨word, rest, rfl, hrest⟩ := exists_bare (h.of_cons rfl (by decide))
    exact ⟨.token word, _, rest, true, rfl, .token, hrest⟩
  · obtain ⟨pairs, front, rest, rfl, hpairs, hrest⟩ := exists_pairs (h.of_cons rfl (by decide))
    cases pairs with
    | nil => contradiction
    | cons first others =>
        exact ⟨.unnamed first others, _, rest, false, by simp, .unnamed hpairs, hrest⟩
  · obtain ⟨word, behind, htext, hname, hend⟩ := h.exists_word hc (by decide)
      (after_nameChar hc rfl) (fun d hd => after_nameChar hd rfl)
    obtain ⟨optional, behind, rfl, hmarked⟩ := exists_mark hname hend
    have hbelow : SumsBelow behind.length := hsums.mono (by rw [htext]; simp; omega)
    obtain ⟨slots, inner, behind, rfl, hslots, hslotted⟩ := exists_slots hbelow hmarked
    obtain ⟨pairs, list, rest, rfl, hlist, hrest⟩ := exists_list hslotted
    exact ⟨.named word optional slots pairs, _, rest, false, by rw [htext]; simp,
      .named hslots hlist, hrest⟩

/-- In front of a sum, all of it comes off. -/
theorem exists_sum (text : List Char) (depth : Nat) (h : Accepts .start depth text) :
    ∃ (d : Outline) (front rest : List Char), text = front ++ rest ∧ Spells d front ∧
      Follows depth rest := by
  -- the sums inside of slots are parts of the text, so the induction is on its length
  induction hn : text.length using Nat.strongRecOn generalizing text depth with
  | ind n ih =>
  have hsums : SumsBelow n := fun text depth hlength h => ih text.length hlength text depth h rfl
  obtain ⟨left, behind, rfl, hleft, hstart, hhead⟩ := h.exists_blank rfl
  have hbelow : SumsBelow behind.length := hsums.mono (by rw [← hn]; simp)
  obtain ⟨e, front, behind, isBare, rfl, helement, hdone⟩ := exists_element hbelow hstart hhead
  obtain ⟨right, behind, rfl, hright, hdone, hend⟩ := hdone.exists_blank rfl
  obtain ⟨rest, rfl, hrest⟩ | hfollows := hdone.of_done hend
  · have hlength : rest.length < n := by
      rw [← hn]
      simp
      omega
    obtain ⟨⟨next, others⟩, more, rest, rfl, hothers, hfollows⟩ := hsums rest depth hlength hrest
    exact ⟨.sum e (next :: others), left ++ front ++ right ++ '|' :: more, rest, by simp,
      .more hleft helement hright hothers, hfollows⟩
  · exact ⟨.sum e [], left ++ front ++ right, behind, by simp, .last hleft helement hright,
      hfollows⟩

/-- What passes the check is a spelling. -/
theorem exists_spells_of_check {text : List Char} (h : check text = .ok ()) :
    ∃ d : Outline, d.Spells text := by
  have haccepts := (check_eq_ok_iff text).1 h
  obtain ⟨d, front, rest, rfl, hd, hfollows⟩ := exists_sum text 0 haccepts
  cases hfollows
  rw [List.append_nil]
  exact ⟨d, hd⟩

/-- The machine accepts exactly the texts of the grammar. -/
theorem validate_eq_ok_iff_spells (definition : String) :
    validate definition = .ok () ↔ ∃ d : Outline, d.Spells definition.toList := by
  constructor
  · intro h
    exact exists_spells_of_check h
  · rintro ⟨d, hd⟩
    exact check_of_spells hd

end DynTypes.Grammar
