import DynTypes.Proofs.Grammar.Accepts
import DynTypes.Proofs.Grammar.Characters
/-!
# Every spelling keeps the grammar

Each production of the grammar is taken by the machine, whatever it is followed by: if the rest is
accepted behind the production, all of it is accepted in front.
-/

namespace DynTypes.Grammar

open Outline Token

variable {phase next : Phase} {depth : Nat} {text rest : List Char}

/-! ## Runs of characters -/

/-- A character that leads to a phase other than behind a literal is no opener. -/
theorem Accepts.cons {c : Char} {opened : Nat} (hnext : next ≠ .closed false)
    (hafter : phase.after depth (.ofChar c) = some (next, opened))
    (h : Accepts next opened rest) : Accepts phase depth (c :: rest) := by
  refine .char (fun hslash => ?_) (fun hquote => ?_) hafter h
  · exact hnext (after_opener (.inl hslash) hafter).2.1
  · exact hnext (after_opener (.inr hquote) hafter).2.1

/-- Characters that lead from a phase to itself may be put in front. -/
theorem Accepts.append
    (hloop : ∀ c ∈ text, phase.after depth (.ofChar c) = some (phase, depth))
    (h : Accepts phase depth rest) : Accepts phase depth (text ++ rest) := by
  induction text with
  | nil => exact h
  | cons c text ih =>
      have hrest := ih fun d hd => hloop d (List.mem_cons_of_mem c hd)
      have hafter := hloop c List.mem_cons_self
      refine .char (fun hslash => ?_) (fun hquote => ?_) hafter hrest
      · obtain ⟨rfl, hclosed, -⟩ := after_opener (.inl hslash) hafter
        contradiction
      · obtain ⟨rfl, hclosed, -⟩ := after_opener (.inr hquote) hafter
        contradiction

theorem Accepts.blank_append (hspace : phase.after depth space = some (phase, depth))
    (htext : Blank text) (h : Accepts phase depth rest) : Accepts phase depth (text ++ rest) := by
  refine h.append fun c hc => ?_
  rw [ofChar_eq_space_iff.2 (htext c hc)]
  exact hspace

/-- A word leads to the phase of its characters. -/
theorem Accepts.word_append {allowed : Char → Bool} (word : Word allowed)
    (hnext : next ≠ .closed false)
    (hfirst : ∀ c, allowed c = true → phase.after depth (.ofChar c) = some (next, depth))
    (hloop : ∀ c, allowed c = true → next.after depth (.ofChar c) = some (next, depth))
    (h : Accepts next depth rest) : Accepts phase depth (word.chars ++ rest) := by
  obtain ⟨chars, hne, hallowed⟩ := word
  cases chars with
  | nil => contradiction
  | cons c chars =>
      refine .cons hnext (hfirst c (hallowed c List.mem_cons_self)) (h.append fun d hd => ?_)
      exact hloop d (hallowed d (List.mem_cons_of_mem c hd))

/-! ## Constraint lists -/

theorem accepts_method (name : Word isMethodChar)
    (h : ∀ isMethod, Accepts (.closed isMethod) depth rest) :
    Accepts .hash depth (name.chars ++ rest) := by
  have hword : Accepts .method depth rest := (h true).of_base rfl
  refine hword.word_append name (by decide) (fun c hc => ?_) (fun c hc => ?_)
  · exact after_methodChar hc rfl rfl
  · exact after_methodChar hc rfl rfl

theorem accepts_token (hphase : phase = .colon ∨ phase = .gap) (token : Word isTokenChar)
    (h : ∀ isMethod, Accepts (.closed isMethod) depth rest) :
    Accepts phase depth (token.chars ++ rest) := by
  have hword : Accepts .token depth rest := (h false).of_base rfl
  refine hword.word_append token (by decide) (fun c hc => ?_) (fun c hc => ?_)
  · obtain rfl | rfl := hphase
    · exact after_tokenChar hc rfl rfl rfl rfl
    · exact after_tokenChar hc rfl rfl rfl rfl
  · exact after_tokenChar hc rfl rfl rfl rfl

theorem accepts_value (value : Value) (h : ∀ isMethod, Accepts (.closed isMethod) depth rest) :
    Accepts .gap depth (value.text ++ rest) := by
  cases value with
  | bare token => exact accepts_token (.inr rfl) token h
  | quoted body units_body => exact .literal rfl (h false)
  | regex body flags units_body body_ne_nil flags_subset => exact .literal rfl (h false)

theorem accepts_pair {pair : Pair} (hpair : pair.Spells text)
    (h : ∀ isMethod, Accepts (.closed isMethod) depth rest) :
    Accepts .pair depth (text ++ rest) := by
  cases hpair with
  | @method name left right hleft hright =>
      have hbehind : ∀ isMethod, Accepts (.closed isMethod) depth (right ++ rest) :=
        fun isMethod => (h isMethod).blank_append rfl hright
      have hmark : Accepts .pair depth ('#' :: (name.chars ++ (right ++ rest))) :=
        .cons (by decide) rfl (accepts_method name hbehind)
      simpa using hmark.blank_append rfl hleft
  | @token token left right hleft hright =>
      have hbehind : ∀ isMethod, Accepts (.closed isMethod) depth (right ++ rest) :=
        fun isMethod => (h isMethod).blank_append rfl hright
      have hmark : Accepts .pair depth (':' :: (token.chars ++ (right ++ rest))) :=
        .cons (by decide) rfl (accepts_token (.inl rfl) token hbehind)
      simpa using hmark.blank_append rfl hleft
  | @value identifier value left gap right hleft hgap hright =>
      have hbehind : ∀ isMethod, Accepts (.closed isMethod) depth (right ++ rest) :=
        fun isMethod => (h isMethod).blank_append rfl hright
      have hcolon : Accepts .identifier depth (':' :: (gap ++ (value.text ++ (right ++ rest)))) :=
        .cons (by decide) rfl ((accepts_value value hbehind).blank_append rfl hgap)
      have hword : Accepts .pair depth
          (identifier.chars ++ ':' :: (gap ++ (value.text ++ (right ++ rest)))) :=
        hcolon.word_append identifier (by decide) (fun c hc => after_methodChar hc rfl rfl)
          (fun c hc => after_methodChar hc rfl rfl)
      simpa using hword.blank_append rfl hleft

theorem accepts_pairs {pairs : List Pair} (hpairs : PairsSpell pairs text)
    (h : Accepts (.done false) depth rest) : Accepts .pair depth (text ++ ')' :: rest) := by
  induction hpairs with
  | last hpair =>
      exact accepts_pair hpair fun isMethod => .cons (by decide) rfl h
  | more hpair _ ih =>
      rw [List.append_assoc]
      exact accepts_pair hpair fun isMethod => .cons (by decide) rfl ih

theorem accepts_list {pairs : List Pair} (hlist : ListSpells pairs text)
    (h : Accepts (.done false) depth rest) : Accepts .slotted depth (text ++ rest) := by
  cases hlist with
  | absent => exact h.of_base rfl
  | present hpairs =>
      rw [List.append_assoc]
      exact .cons (by decide) rfl (accepts_pairs hpairs h)

/-! ## Alternatives and sums -/

theorem accepts_bare (name : Word isMethodChar) (h : Accepts (.done true) depth rest) :
    Accepts .bareMark depth (name.chars ++ rest) := by
  have hword : Accepts .bareWord depth rest := h.of_base rfl
  refine hword.word_append name (by decide) (fun c hc => ?_) (fun c hc => ?_)
  · exact after_methodChar hc rfl rfl
  · exact after_methodChar hc rfl rfl

theorem accepts_name (name : Word isNameChar) (h : Accepts .name depth rest) :
    Accepts .start depth (name.chars ++ rest) := by
  refine h.word_append name (by decide) (fun c hc => ?_) (fun c hc => ?_)
  · exact after_nameChar hc rfl
  · exact after_nameChar hc rfl

theorem accepts_mark (optional : Bool) (h : Accepts .marked depth rest) :
    Accepts .name depth (mark optional ++ rest) := by
  cases optional with
  | true => exact .cons (by decide) rfl h
  | false => exact h.of_base rfl

mutual

theorem accepts_sum {d : Outline} {text : List Char} : Spells d text →
    ∀ (rest : List Char) (depth : Nat), (∀ isBare, Accepts (.done isBare) depth rest) →
      Accepts .start depth (text ++ rest)
  | @Spells.last _ left _ right hleft helement hright, rest, depth, h => by
      have hbehind : ∀ isBare, Accepts (.done isBare) depth (right ++ rest) :=
        fun isBare => (h isBare).blank_append rfl hright
      have hstart := accepts_element helement _ depth hbehind
      simpa using hstart.blank_append rfl hleft
  | @Spells.more _ _ _ left _ right others hleft helement hright hothers, rest, depth, h => by
      have hbar : ∀ isBare, Accepts (.done isBare) depth ('|' :: (others ++ rest)) :=
        fun isBare => .cons (by decide) rfl (accepts_sum hothers rest depth h)
      have hbehind : ∀ isBare, Accepts (.done isBare) depth (right ++ '|' :: (others ++ rest)) :=
        fun isBare => (hbar isBare).blank_append rfl hright
      have hstart := accepts_element helement _ depth hbehind
      simpa using hstart.blank_append rfl hleft

theorem accepts_element {e : Outline.Element} {text : List Char} : ElementSpells e text →
    ∀ (rest : List Char) (depth : Nat), (∀ isBare, Accepts (.done isBare) depth rest) →
      Accepts .start depth (text ++ rest)
  | @ElementSpells.named name optional _ _ _ _ hslots hlist, rest, depth, h => by
      have hslotted := accepts_list hlist (h false)
      have hmarked := accepts_slots hslots _ depth hslotted
      have hname := accepts_mark optional hmarked
      simpa using accepts_name name hname
  | .unnamed hpairs, rest, depth, h => by
      rw [List.append_assoc]
      exact .cons (by decide) rfl (accepts_pairs hpairs (h false))
  | .method, rest, depth, h => .cons (by decide) rfl (accepts_bare _ (h true))
  | .token, rest, depth, h => .cons (by decide) rfl (accepts_bare _ (h true))

theorem accepts_slots {slots : List Outline} {text : List Char} : SlotsSpell slots text →
    ∀ (rest : List Char) (depth : Nat), Accepts .slotted depth rest →
      Accepts .marked depth (text ++ rest)
  | .absent, rest, depth, h => h.of_base rfl
  | .present hseries, rest, depth, h => by
      rw [List.append_assoc]
      exact .cons (by decide) rfl (accepts_series hseries rest depth h)

theorem accepts_series {slots : List Outline} {text : List Char} : SeriesSpells slots text →
    ∀ (rest : List Char) (depth : Nat), Accepts .slotted depth rest →
      Accepts .start (depth + 1) (text ++ '>' :: rest)
  | .last hslot, rest, depth, h =>
      accepts_sum hslot _ _ fun isBare => .cons (by decide) rfl h
  | .more hslot hothers, rest, depth, h => by
      have hcomma : ∀ isBare, Accepts (.done isBare) (depth + 1) (',' :: (_ ++ '>' :: rest)) :=
        fun isBare => .cons (by decide) rfl (accepts_series hothers rest depth h)
      rw [List.append_assoc]
      exact accepts_sum hslot _ _ hcomma

end

/-- Every spelling passes the check. -/
theorem check_of_spells {d : Outline} {text : List Char} (hd : Spells d text) :
    check text = .ok () := by
  have hend : ∀ isBare, Accepts (.done isBare) 0 [] := fun isBare => .finish rfl
  have haccepts := accepts_sum hd [] 0 hend
  rw [List.append_nil] at haccepts
  exact (check_eq_ok_iff text).2 haccepts

end DynTypes.Grammar
