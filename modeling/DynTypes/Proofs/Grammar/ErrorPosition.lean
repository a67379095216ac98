import DynTypes.Proofs.Grammar.Viable
/-!
# Where an error stands

An error of the check stands right behind the longest viable part of the text. If a character is
to blame, the text in front of it is viable and the text up to it is not; otherwise the whole text
is viable, and the cause says what is missing at its end.
-/

namespace DynTypes.Grammar

open Outline Token

variable {text front rest : List Char} {phase : Phase} {depth : Nat}

/-! ## Brackets -/

/-- The change of a number of open brackets at a character of some class. -/
def Token.count (opener closer : Token) (n : Nat) (token : Token) : Nat :=
  if token = opener then n + 1 else if token = closer then n - 1 else n

theorem openCount_singleton {opener closer : Token} {o c : Char} (hopener : opener.char? = some o)
    (hcloser : closer.char? = some c) (n : Nat) (d : Char) :
    openCount o c n [d] = Token.count opener closer n (.ofChar d) := by
  rw [Token.count]
  simp only [ofChar_eq_iff hopener, ofChar_eq_iff hcloser]
  rfl

/-- What one character does to the numbers of open brackets. -/
theorem count_after {next : Phase} {opened : Nat} {token : Token}
    (hafter : phase.after depth token = some (next, opened)) :
    Token.count openAngle closeAngle depth token = opened ∧
      Token.count openParen closeParen (phase.state 0).lists token = (next.state 0).lists := by
  -- a comma and a closing angle ask whether a collection is open
  rcases depth with _ | depth
  · cases phase <;> cases token <;> cases hafter <;> exact ⟨rfl, rfl⟩
  · cases phase <;> cases token <;> cases hafter <;> exact ⟨rfl, rfl⟩

theorem openCount_flags {opener closer : Char} {flags : List Char}
    (hflags : ∀ c ∈ flags, c ∈ literalFlags) (hopener : opener ∉ literalFlags)
    (hcloser : closer ∉ literalFlags) (n : Nat) : openCount opener closer n flags = n := by
  refine openCount_eq_self fun c hc => ⟨?_, ?_⟩
  · exact fun heq => hopener (heq ▸ hflags c hc)
  · exact fun heq => hcloser (heq ▸ hflags c hc)

theorem Reaches.brackets (h : Reaches front phase depth rest) :
    openCount '<' '>' 0 (unquoted front) = depth ∧
      openCount '(' ')' 0 (unquoted front) = (phase.state 0).lists := by
  refine Reaches.unquoted_induction (motive := fun phase depth seen =>
    openCount '<' '>' 0 seen = depth ∧ openCount '(' ')' 0 seen = (phase.state 0).lists)
    ⟨rfl, rfl⟩ ?_ ?_ h
  · rintro _ _ _ _ seen c ⟨hangles, hparens⟩ hafter
    obtain ⟨hangles', hparens'⟩ := count_after hafter
    rw [openCount_append, openCount_append, hangles, hparens]
    exact ⟨(openCount_singleton rfl rfl _ c).trans hangles',
      (openCount_singleton rfl rfl _ c).trans hparens'⟩
  · rintro _ seen flags ⟨hangles, hparens⟩ hflags
    rw [openCount_append, openCount_append, hangles, hparens,
      openCount_flags hflags (by decide) (by decide),
      openCount_flags hflags (by decide) (by decide)]
    exact ⟨rfl, rfl⟩

/-! ## Errors -/

/-- The cause of an error is this character. -/
def Blames (cause : GrammarError.Cause) (c : Char) : Prop :=
  cause = .unexpected c ∨ cause = .emptyPattern ∧ c = '/'

/-- The error stands at a character, which ends the longest viable part of the text. -/
structure StandsAt (text : List Char) (e : GrammarError) (c : Char) : Prop where
  getElem? : text[e.position]? = some c
  excerpt_eq : e.excerpt = String.ofList (text.take (e.position + 1))
  viable_before : Viable (text.take e.position)
  not_viable_through : ¬ Viable (text.take (e.position + 1))

/-- The error stands at the end of a text that is viable as a whole. -/
structure StandsAtEnd (text : List Char) (e : GrammarError) : Prop where
  position_eq : e.position = text.length - 1
  excerpt_eq : e.excerpt = String.ofList text
  viable : Viable text

/-- The cause says what is missing at the end of the text: the end of a literal, or else the end
of a collection, or else that of a constraint list, or else something that can end a definition. -/
structure TellsMissing (text : List Char) (cause : GrammarError.Cause) : Prop where
  unterminated_iff : ∀ delimiter,
    cause = .unterminated delimiter ↔ openLiteral? text = some delimiter
  missing_angle_iff : cause = .missing '>' ↔
    openLiteral? text = none ∧ LeavesOpen '<' '>' (unquoted text)
  missing_paren_iff : cause = .missing ')' ↔
    openLiteral? text = none ∧ ¬ LeavesOpen '<' '>' (unquoted text) ∧
      LeavesOpen '(' ')' (unquoted text)
  illegalEnd_iff : cause = .illegalEnd ↔
    openLiteral? text = none ∧ ¬ LeavesOpen '<' '>' (unquoted text) ∧
      ¬ LeavesOpen '(' ')' (unquoted text)

theorem standsAtEnd_atEnd {cause : GrammarError.Cause} (hne : text ≠ []) (h : Viable text) :
    StandsAtEnd text (.atEnd cause text) := by
  have hlength : text.length - 1 + 1 = text.length :=
    Nat.sub_add_cancel (List.length_pos_iff.2 hne)
  refine ⟨rfl, ?_, h⟩
  show String.ofList (text.take (text.length - 1 + 1)) = _
  rw [hlength, List.take_length]

theorem tellsMissing_unterminated {delimiter : Char} (h : openLiteral? text = some delimiter) :
    TellsMissing text (.unterminated delimiter) := by
  constructor <;> simp [h, eq_comm]

theorem TellsMissing.not_blames {cause : GrammarError.Cause} (h : TellsMissing text cause)
    (c : Char) : ¬ Blames cause c := by
  intro hblames
  have hother : (∀ d, cause ≠ .unterminated d) ∧ (∀ d, cause ≠ .missing d) ∧
      cause ≠ .illegalEnd := by
    rcases hblames with rfl | ⟨rfl, -⟩ <;> simp
  obtain ⟨hunterminated, hmissing, hillegal⟩ := hother
  have hliteral : openLiteral? text = none := by
    cases hopen : openLiteral? text with
    | none => rfl
    | some d => exact absurd ((h.unterminated_iff d).2 hopen) (hunterminated d)
  have hangle : ¬ LeavesOpen '<' '>' (unquoted text) := fun hopen =>
    hmissing '>' (h.missing_angle_iff.2 ⟨hliteral, hopen⟩)
  have hparen : ¬ LeavesOpen '(' ')' (unquoted text) := fun hopen =>
    hmissing ')' (h.missing_paren_iff.2 ⟨hliteral, hangle, hopen⟩)
  exact hillegal (h.illegalEnd_iff.2 ⟨hliteral, hangle, hparen⟩)

/-- What the machine finds missing at the end is what is missing. -/
theorem tellsMissing_of_conclude {e : GrammarError} (h : Reaches text phase depth [])
    (hconclude : conclude text (phase.state depth) = .error e) :
    ∃ cause, e = .atEnd cause text ∧ TellsMissing text cause := by
  obtain ⟨hangles, hparens⟩ := h.brackets
  have hliteral : openLiteral? text = none := by rw [openLiteral?, h.placeBehind_eq]; rfl
  have hangle : LeavesOpen '<' '>' (unquoted text) ↔ 0 < depth := by
    rw [← openCount_pos_iff_leavesOpen (by decide), hangles]
  have hparen : LeavesOpen '(' ')' (unquoted text) ↔ 0 < (phase.state 0).lists := by
    rw [← openCount_pos_iff_leavesOpen (by decide), hparens]
  rw [conclude, State.missingCloser?, phase.collections_state, phase.lists_state] at hconclude
  by_cases hdepth : 0 < depth
  · rw [if_pos hdepth] at hconclude
    cases hconclude
    exact ⟨_, rfl, by constructor <;> simp [hliteral, hangle, hdepth]⟩
  · rw [if_neg hdepth] at hconclude
    by_cases hlist : 0 < (phase.state 0).lists
    · rw [if_pos hlist] at hconclude
      cases hconclude
      exact ⟨_, rfl, by constructor <;> simp [hliteral, hangle, hdepth, hparen, hlist]⟩
    · rw [if_neg hlist] at hconclude
      dsimp only at hconclude
      split at hconclude
      · contradiction
      · cases hconclude
        exact ⟨_, rfl, by constructor <;> simp [hliteral, hangle, hdepth, hparen, hlist]⟩

theorem standsAt_front {c : Char} {cause : GrammarError.Cause} (htext : text = front ++ c :: rest)
    (hviable : Viable front) (hnot : ¬ Viable (front ++ [c])) :
    StandsAt text (.atPosition cause text front.length) c := by
  have htake : text.take front.length = front := by rw [htext, List.take_left]
  have hthrough : text.take (front.length + 1) = front ++ [c] := by
    have hlength : front.length + 1 = (front ++ [c]).length := by simp
    rw [htext, List.append_cons, hlength, List.take_left]
  refine ⟨?_, rfl, ?_, ?_⟩
  · show text[front.length]? = some c
    simp [htext]
  · show Viable (text.take front.length)
    rwa [htake]
  · show ¬ Viable (text.take (front.length + 1))
    rwa [hthrough]

theorem standsAt_or_standsAtEnd {e : GrammarError} (hne : text ≠ []) (h : check text = .error e) :
    (∃ c, Blames e.cause c ∧ StandsAt text e c) ∨
      StandsAtEnd text e ∧ TellsMissing text e.cause := by
  obtain ⟨front, phase, depth, rest, htext, hreaches, hstops⟩ := exists_stops hne
  rw [h] at hstops
  generalize hresult : (Except.error e : Except GrammarError Unit) = result at hstops
  cases hstops with
  | finish =>
      obtain rfl : text = front := by rw [htext, List.append_nil]
      obtain ⟨cause, rfl, hmissing⟩ := tellsMissing_of_conclude hreaches hresult.symm
      exact .inr ⟨standsAtEnd_atEnd hne hreaches.viable, hmissing⟩
  | @unexpected _ _ c rest hafter =>
      cases hresult
      exact .inl ⟨c, .inl rfl, standsAt_front htext hreaches.viable (hreaches.not_viable hafter)⟩
  | @unterminated _ kind behind hbody =>
      cases hresult
      have hviable := hreaches.viable_open hbody
      have hopen : openLiteral? text = some kind.toChar := by
        rw [htext, openLiteral?, placeBehind_append, hreaches.placeBehind_eq]
        have hinside : Place.outside.next kind.toChar = .inside kind.toChar := by
          cases kind <;> rfl
        have hdelimiter := delimiter?_of_bodyLength? hbody
        rw [← hinside] at hdelimiter
        exact hdelimiter
      rw [← htext] at hviable
      exact .inr ⟨standsAtEnd_atEnd hne hviable, tellsMissing_unterminated hopen⟩
  | @emptyPattern _ behind =>
      cases hresult
      have htext' : text = (front ++ ['/']) ++ '/' :: behind := by rw [htext]; simp
      have hnot := hreaches.not_viable_slashes
      rw [List.append_cons] at hnot
      have hlength : front.length + 1 = (front ++ ['/']).length := by simp
      rw [hlength]
      exact .inl ⟨'/', .inr ⟨rfl, rfl⟩, standsAt_front htext' hreaches.viable_slash hnot⟩

theorem Blames.eq {cause : GrammarError.Cause} {c d : Char} (hc : Blames cause c)
    (hd : Blames cause d) : c = d := by
  rcases hc with rfl | ⟨rfl, rfl⟩ <;> rcases hd with hd | ⟨hd, rfl⟩ <;> cases hd <;> rfl

/-- An error stands at the end of the longest viable part of a definition: at the character that
is to blame, or at the end of a definition in which something is missing. -/
theorem error_ends_longest_viable {definition : String} {e : GrammarError} (hne : definition ≠ "")
    (h : validate definition = .error e) :
    (∀ c, Blames e.cause c → StandsAt definition.toList e c) ∧
      ((∀ c, ¬ Blames e.cause c) →
        StandsAtEnd definition.toList e ∧ TellsMissing definition.toList e.cause) := by
  have htext : definition.toList ≠ [] := fun hnil => hne (String.toList_eq_nil_iff.1 hnil)
  rcases standsAt_or_standsAtEnd htext h with ⟨c, hblames, hstands⟩ | hend
  · refine ⟨?_, fun hnone => absurd hblames (hnone c)⟩
    intro d hd
    rw [← hblames.eq hd]
    exact hstands
  · refine ⟨?_, fun _ => hend⟩
    intro c hblames
    exact absurd hblames (hend.2.not_blames c)

theorem error_ends_longest_viable_slashes :
    "Array<String(format://)>" ≠ "" ∧
      validate "Array<String(format://)>" = .error ⟨.emptyPattern, 21, "Array<String(format://"⟩ ∧
      StandsAt "Array<String(format://)>".toList ⟨.emptyPattern, 21, "Array<String(format://"⟩
        '/' := by
  have hne : "Array<String(format://)>" ≠ "" := by decide
  have hvalidate : validate "Array<String(format://)>" =
      .error ⟨.emptyPattern, 21, "Array<String(format://"⟩ := by decide
  exact ⟨hne, hvalidate, (error_ends_longest_viable hne hvalidate).1 '/' (.inr ⟨rfl, rfl⟩)⟩

end DynTypes.Grammar
