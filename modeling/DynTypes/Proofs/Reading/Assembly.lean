import DynTypes.Proofs.Grammar.Completeness
import DynTypes.Proofs.Reading.Pairs
import DynTypes.Proofs.Reading.Stack
/-!
# Reading a definition

What the assembly still has to do depends on its stack and on the text that is left, not on how it
got there. So each construct is read for every stack and for every text behind it: what follows is
given as a continuation, which is told the part of the tree that the construct stands for.
-/

namespace DynTypes

open Outline Text

/-! ## The characters of names -/

namespace Assembly

/-- The characters that only ever lengthen a name. -/
def IsWritten (c : Char) : Prop :=
  isWhiteSpace c = false ∧ c ∉ ['|', '<', ',', '>', '(']

theorem isWritten_of_isMethodChar {c : Char} (hc : isMethodChar c = true) : IsWritten c := by
  refine ⟨isWhiteSpace_of_isTokenChar (isTokenChar_of_isMethodChar hc), ?_⟩
  intro hmem
  simp only [List.mem_cons, List.not_mem_nil, or_false] at hmem
  obtain rfl | rfl | rfl | rfl | rfl := hmem
  all_goals exact absurd hc (by decide)

theorem isWritten_of_mem_cons {mark : Char} (hmark : IsWritten mark) (name : Word isMethodChar) :
    ∀ c ∈ mark :: name.chars, IsWritten c := by
  intro c hc
  obtain rfl | hc := List.mem_cons.1 hc
  · exact hmark
  · exact isWritten_of_isMethodChar (name.allowed_of_mem c hc)

theorem isWritten_of_mem_name (name : Word isNameChar) (optional : Bool) :
    ∀ c ∈ name.chars ++ mark optional, IsWritten c := by
  intro c hc
  obtain hc | hc := List.mem_append.1 hc
  · exact isWritten_of_isMethodChar (isMethodChar_of_isNameChar (name.allowed_of_mem c hc))
  · cases optional with
    | true =>
        obtain rfl := List.mem_singleton.1 hc
        exact isWritten_of_isMethodChar rfl
    | false => contradiction

end Assembly

variable [RegexEngine]

/-! ## Written names -/

theorem Alternative.any_eq : Alternative.any = .mk Alternative.anyName false [] none :=
  rfl

theorem Alternative.any_constrainedBy (constraints : Constraints) :
    Alternative.any.constrainedBy constraints = anyWith constraints := by
  rw [Alternative.any_eq]
  rfl

theorem Alternative.ofName_word (name : Word isNameChar) (optional : Bool) :
    Alternative.ofName (String.ofList (name.chars ++ mark optional)) =
      .mk (String.ofList name.chars) optional [] none := by
  have hclass : ∀ c, isNameChar c = true → isTokenChar c = true := fun c hc =>
    isTokenChar_of_isMethodChar (isMethodChar_of_isNameChar hc)
  have hname : Trimmed name.chars := name.trimmed hclass
  have hempty : name.chars.isEmpty = false := by simpa using name.chars_ne_nil
  cases optional with
  | true =>
      have hall : Trimmed (name.chars ++ ['?']) := by
        apply Trimmed.of_forall
        intro c hc
        obtain hc | rfl : c ∈ name.chars ∨ c = '?' := by simpa using hc
        · exact isWhiteSpace_of_isNameChar (name.allowed_of_mem c hc)
        · decide
      have hend : trimEnd (name.chars ++ []) = name.chars :=
        trimEnd_append (List.forall_mem_nil _) hname.last
      rw [List.append_nil] at hend
      simp [Alternative.ofName, mark, hall.trim_eq, hend, hempty]
  | false =>
      have hlast : name.chars.getLast? ≠ some '?' := by
        intro h
        have hmem : isNameChar '?' = true := name.allowed_of_mem '?' (List.mem_of_getLast? h)
        exact absurd hmem (by decide)
      simp [Alternative.ofName, mark, hname.trim_eq, hlast, hempty]

theorem Alternative.ofWritten_name (name : Word isNameChar) (optional : Bool) :
    Alternative.ofWritten (name.chars ++ mark optional) =
      .ok (.mk (String.ofList name.chars) optional [] none) := by
  rw [← Alternative.ofName_word]
  unfold Alternative.ofWritten
  cases hchars : name.chars with
  | nil => exact absurd hchars name.chars_ne_nil
  | cons c tail =>
      have hc : isNameChar c = true := name.allowed_of_mem c (hchars ▸ List.mem_cons_self)
      have hhash : c ≠ '#' := ne_of_isNameChar hc (by decide)
      have hcolon : c ≠ ':' := ne_of_isNameChar hc (by decide)
      split
      · next method heq => exact absurd (List.cons.inj heq).1 hhash
      · next token heq => exact absurd (List.cons.inj heq).1 hcolon
      · rfl

theorem Alternative.ofWritten_method (name : Word isMethodChar) :
    Alternative.ofWritten ('#' :: name.chars) =
      .ok (anyWith (.singleton (.capability (String.ofList name.chars)))) := by
  unfold Alternative.ofWritten
  rw [← Alternative.any_constrainedBy]
  simp only [Constraint.parse_capability]
  rfl

theorem Alternative.ofWritten_token (name : Word isMethodChar) :
    Alternative.ofWritten (':' :: name.chars) =
      .ok (anyWith (.singleton (.val (.token (String.ofList (':' :: name.chars)))))) := by
  have hchars : ∀ c ∈ name.chars, isTokenChar c = true := fun c hc =>
    isTokenChar_of_isMethodChar (name.allowed_of_mem c hc)
  unfold Alternative.ofWritten
  rw [← Alternative.any_constrainedBy]
  simp only [Constraint.parse_token hchars]
  rfl

namespace Assembly

variable {outer : List (List Alternative × List TypeExpr)} {sum : List Alternative}
  {a : Assembly} {rest : List Char} {r : Except DefinitionError TypeExpr}

/-! ## What is left to do -/

/-- From a state on, the text gives a result. -/
def Reads (a : Assembly) (rest : List Char) (r : Except DefinitionError TypeExpr) : Prop :=
  ∀ text index, (Text.scan (step text) index 0 a rest >>= finish) = r

theorem Reads.cons {c : Char} {next : Assembly}
    (hstep : ∀ text index, step text index a c rest = .ok (next, 0)) (h : Reads next rest r) :
    Reads a (c :: rest) r := by
  intro text index
  rw [Text.scan_zero, hstep]
  exact h text (index + 1)

theorem step_of_isWhiteSpace {c : Char} (hc : isWhiteSpace c = true) (text : List Char)
    (index : Nat) : step text index a c rest = .ok (a, 0) := by
  have hnotMem : c ∉ ['|', '<', ',', '>', '('] := by
    intro hmem
    simp only [List.mem_cons, List.not_mem_nil, or_false] at hmem
    obtain rfl | rfl | rfl | rfl | rfl := hmem <;> contradiction
  rw [step_of_notMem hnotMem, if_pos hc]

theorem Reads.blank {left : List Char} (hleft : Blank left) (h : Reads a rest r) :
    Reads a (left ++ rest) r := by
  induction left with
  | nil => exact h
  | cons c left ih =>
      have hc : isWhiteSpace c = true := hleft c List.mem_cons_self
      have htail : Blank left := fun d hd => hleft d (List.mem_cons_of_mem c hd)
      exact Reads.cons (step_of_isWhiteSpace hc) (ih htail)

theorem step_of_isWritten {c : Char} (hc : IsWritten c) (text : List Char) (index : Nat) :
    step text index a c rest =
      .ok ({ a with name := a.name ++ [c], owner := .pendingName }, 0) := by
  rw [step_of_notMem hc.2, if_neg (Bool.eq_false_iff.1 hc.1)]

theorem Reads.written {written chars : List Char} {owner : Owner}
    (hchars : ∀ c ∈ chars, IsWritten c) (hne : chars ≠ [])
    (h : Reads ⟨outer, sum, written ++ chars, .pendingName⟩ rest r) :
    Reads ⟨outer, sum, written, owner⟩ (chars ++ rest) r := by
  induction chars generalizing written owner with
  | nil => contradiction
  | cons c chars ih =>
      have hc : IsWritten c := hchars c List.mem_cons_self
      have htail : ∀ d ∈ chars, IsWritten d := fun d hd => hchars d (List.mem_cons_of_mem c hd)
      apply Reads.cons (step_of_isWritten hc)
      cases chars with
      | nil => exact h
      | cons d chars =>
          apply ih htail (List.cons_ne_nil d chars)
          rw [List.append_assoc]
          exact h

/-! ## Ends of alternatives -/

/-- The last alternative of the sum is complete, or it will be once its name is. -/
inductive Ends (outer : List (List Alternative × List TypeExpr)) :
    Assembly → List Alternative → Prop where
  | pending {sum : List Alternative} {name : List Char} {alternative : Alternative}
      (hname : name ≠ []) (hwritten : Alternative.ofWritten name = .ok alternative) :
      Ends outer ⟨outer, sum, name, .pendingName⟩ (sum ++ [alternative])
  | made {sum : List Alternative} : Ends outer ⟨outer, sum, [], .lastAlternative⟩ sum

theorem Ends.flushName (h : Ends outer a sum) : a.flushName = .ok ⟨outer, sum, [], a.owner⟩ := by
  cases h with
  | pending hname hwritten =>
      have hempty : ¬ (List.isEmpty _ = true) := fun h => hname (List.isEmpty_iff.1 h)
      rw [Assembly.flushName, if_neg hempty, hwritten]
      rfl
  | made => rfl

theorem Ends.openList (h : Ends outer a sum) : a.openList = .ok ⟨outer, sum, [], a.owner⟩ := by
  cases h with
  | pending hname hwritten => exact (Ends.pending hname hwritten).flushName
  | made => rfl

theorem Ends.reads_nil {expr : TypeExpr} (h : Ends [] a expr.alternatives) :
    Reads a [] (.ok expr) := by
  intro text index
  rw [Text.scan_nil, pure_bind, finish, h.flushName]
  exact TypeExpr.ofAlternatives_alternatives expr

theorem Ends.step_bar (h : Ends outer a sum) (text : List Char) (index : Nat) :
    step text index a '|' rest = .ok (⟨outer, sum, [], .anyObject⟩, 0) := by
  show (a.flushName >>= _) = _
  rw [h.flushName]
  rfl

theorem Ends.reads_bar (h : Ends outer a sum) (hrest : Reads ⟨outer, sum, [], .anyObject⟩ rest r) :
    Reads a ('|' :: rest) r :=
  Reads.cons h.step_bar hrest

theorem Ends.step_openAngle (h : Ends outer a sum) (text : List Char) (index : Nat) :
    step text index a '<' rest = .ok (⟨(sum, []) :: outer, [], [], .anyObject⟩, 0) := by
  show (a.flushName >>= _) = _
  rw [h.flushName]
  rfl

theorem Ends.reads_openAngle (h : Ends outer a sum)
    (hrest : Reads ⟨(sum, []) :: outer, [], [], .anyObject⟩ rest r) :
    Reads a ('<' :: rest) r :=
  Reads.cons h.step_openAngle hrest

section Slots

variable {slots : List TypeExpr} {expr : TypeExpr}

theorem endSlot_alternatives (owner : Owner) :
    endSlot ⟨(sum, slots) :: outer, expr.alternatives, [], owner⟩ =
      .ok ⟨(sum, slots ++ [expr]) :: outer, [], [], owner⟩ := by
  rw [Assembly.endSlot, TypeExpr.ofAlternatives_alternatives]
  rfl

theorem Ends.step_comma (h : Ends ((sum, slots) :: outer) a expr.alternatives) (text : List Char)
    (index : Nat) : step text index a ',' rest =
      .ok (⟨(sum, slots ++ [expr]) :: outer, [], [], .anyObject⟩, 0) := by
  show (a.flushName >>= fun a => a.endSlot >>= _) = _
  rw [h.flushName, ok_bind, endSlot_alternatives]
  rfl

theorem Ends.reads_comma (h : Ends ((sum, slots) :: outer) a expr.alternatives)
    (hrest : Reads ⟨(sum, slots ++ [expr]) :: outer, [], [], .anyObject⟩ rest r) :
    Reads a (',' :: rest) r :=
  Reads.cons h.step_comma hrest

theorem modifyLast_append (f : Alternative → Except DefinitionError Alternative)
    (alternative : Alternative) :
    modifyLast f (sum ++ [alternative]) =
      (f alternative).map fun alternative => sum ++ [alternative] := by
  rw [modifyLast, List.getLast?_concat]
  simp only [List.dropLast_concat]

theorem Ends.step_closeAngle {name : String} {optional : Bool}
    (h : Ends ((sum ++ [.mk name optional [] none], slots) :: outer) a expr.alternatives)
    (text : List Char) (index : Nat) :
    step text index a '>' rest = .ok
      (⟨outer, sum ++ [.mk name optional (slots ++ [expr]) none], [], .lastAlternative⟩, 0) := by
  have hempty : ¬ ((slots ++ [expr]).isEmpty = true) := by simp
  show (a.flushName >>= fun a => a.endSlot >>= fun a => a.endCollection >>= _) = _
  rw [h.flushName, ok_bind, endSlot_alternatives, ok_bind, endCollection]
  dsimp only
  rw [modifyLast_append, Alternative.holding, if_neg hempty]
  rfl

theorem Ends.reads_closeAngle {name : String} {optional : Bool}
    (h : Ends ((sum ++ [.mk name optional [] none], slots) :: outer) a expr.alternatives)
    (hrest : Reads ⟨outer, sum ++ [.mk name optional (slots ++ [expr]) none], [],
      .lastAlternative⟩ rest r) :
    Reads a ('>' :: rest) r :=
  Reads.cons h.step_closeAngle hrest

end Slots

/-! ## Constructs

The induction is on the spelling. The stack, the sum at hand and the text behind the construct are
arbitrary, since each of them is another one for the parts of the construct.
-/

/-- A constraint list is taken as a whole, up to its closing parenthesis. -/
theorem step_openParen {pairs : List Pair} {written : List Char} (hpairs : PairsSpell pairs written)
    {alternative : Alternative} {owner : Owner}
    (hopen : a.openList = .ok ⟨outer, sum ++ [alternative], [], owner⟩) (text : List Char)
    (index : Nat) :
    step text index a '(' (written ++ ')' :: rest) = buildList pairs >>= fun constraints =>
      .ok (⟨outer, sum ++ [alternative.constrainedBy constraints], [], .lastAlternative⟩,
        written.length + 1) := by
  show (a.openList >>= fun a => Constraints.read text [] [] (index + 1) 0 _ >>= _) = _
  rw [hopen, ok_bind, Constraints.read_pairs hpairs, buildList]
  cases pairs.mapM Pair.build with
  | error e => rfl
  | ok constraints =>
      simp only [ok_bind, List.nil_append]
      cases Constraints.ofList constraints with
      | error e => rfl
      | ok list =>
          simp only [ok_bind, pure_bind, modifyLast_append, Function.comp_apply, Except.map]
          rfl

theorem reads_list {pairs : List Pair} {written : List Char} (hpairs : PairsSpell pairs written)
    {alternative : Alternative} {owner : Owner}
    (hopen : a.openList = .ok ⟨outer, sum ++ [alternative], [], owner⟩)
    {k : Constraints → Except DefinitionError TypeExpr}
    (h : ∀ constraints, Reads ⟨outer, sum ++ [alternative.constrainedBy constraints], [],
      .lastAlternative⟩ rest (k constraints)) :
    Reads a ('(' :: written ++ ')' :: rest) (buildList pairs >>= k) := by
  intro text index
  rw [List.cons_append, Text.scan_zero, step_openParen hpairs hopen]
  cases buildList pairs with
  | error e => rfl
  | ok list =>
      -- the list is used up at once, so the assembly goes on behind its closing parenthesis
      have hover := Text.scan_length_append (step text) (index + 1)
        ⟨outer, sum ++ [alternative.constrainedBy list], [], .lastAlternative⟩
        (written ++ [')']) rest
      simp only [List.length_append, List.length_singleton, List.append_assoc,
        List.singleton_append] at hover
      simp only [ok_bind]
      rw [hover]
      exact h list text _

theorem reads_list? {pairs : List Pair} {written : List Char} (hlist : ListSpells pairs written)
    {name : String} {optional : Bool} {exprs : List TypeExpr}
    (hends : Ends outer a (sum ++ [.mk name optional exprs none]))
    {k : Option Constraints → Except DefinitionError TypeExpr}
    (h : ∀ constraints b, Ends outer b (sum ++ [.mk name optional exprs constraints]) →
      Reads b rest (k constraints)) :
    Reads a (written ++ rest) (buildList? pairs >>= k) := by
  cases hlist with
  | absent => exact h none a hends
  | @present pairs written hpairs =>
      have hbuild : buildList? pairs >>= k = buildList pairs >>= fun constraints =>
          k (some constraints) := by
        cases hpairs <;> rw [buildList?, bind_assoc] <;> rfl
      rw [hbuild, List.append_assoc, List.singleton_append]
      apply reads_list hpairs hends.openList
      intro constraints
      exact h (some constraints) _ .made

/-- The opening parenthesis of a list without a name makes the alternative that it belongs to. -/
theorem openList_anyObject :
    openList ⟨outer, sum, [], .anyObject⟩ =
      .ok ⟨outer, sum ++ [.any], [], .anyObject⟩ :=
  rfl

mutual

theorem reads_sum {d : Outline} {written : List Char} : Spells d written →
    ∀ {outer : List (List Alternative × List TypeExpr)} {sum : List Alternative} {rest : List Char}
      {k : TypeExpr → Except DefinitionError TypeExpr},
    (∀ expr a, Ends outer a (sum ++ expr.alternatives) → Reads a rest (k expr)) →
    Reads ⟨outer, sum, [], .anyObject⟩ (written ++ rest) (build d >>= k)
  | @Spells.last e left text right hleft helement hright, outer, sum, rest, k, h => by
      have hbuild : build (.sum e []) >>= k = buildElement e >>= fun alternative =>
          k (.sum alternative []) := by
        simp only [build, buildElements, bind_assoc, pure_bind]
      rw [hbuild, List.append_assoc, List.append_assoc]
      apply Reads.blank hleft
      apply reads_element helement
      intro alternative a hends
      exact Reads.blank hright (h (.sum alternative []) a hends)
  | @Spells.more e next others left text right behind hleft helement hright hothers,
      outer, sum, rest, k, h => by
      have hbuild : build (.sum e (next :: others)) >>= k = buildElement e >>= fun alternative =>
          build (.sum next others) >>= fun expr => k (.sum alternative expr.alternatives) := by
        simp only [build_sum_cons, bind_assoc, pure_bind]
      rw [hbuild, List.append_assoc, List.append_assoc, List.append_assoc]
      apply Reads.blank hleft
      apply reads_element helement
      intro alternative a hends
      apply Reads.blank hright
      apply hends.reads_bar
      -- the sum at hand now has one alternative more than where the others are told about it
      apply reads_sum hothers
      intro expr b hlast
      rw [List.append_assoc] at hlast
      exact h (.sum alternative expr.alternatives) b hlast

theorem reads_element {e : Outline.Element} {written : List Char} : ElementSpells e written →
    ∀ {outer : List (List Alternative × List TypeExpr)} {sum : List Alternative} {rest : List Char}
      {k : Alternative → Except DefinitionError TypeExpr},
    (∀ alternative a, Ends outer a (sum ++ [alternative]) → Reads a rest (k alternative)) →
    Reads ⟨outer, sum, [], .anyObject⟩ (written ++ rest) (buildElement e >>= k)
  | @ElementSpells.named name optional slots pairs inner list hslots hlist,
      outer, sum, rest, k, h => by
      have hbuild : buildElement (.named name optional slots pairs) >>= k =
          buildSlots slots >>= fun exprs => buildList? pairs >>= fun constraints =>
            k (.mk (String.ofList name.chars) optional exprs constraints) := by
        simp only [buildElement, bind_assoc, pure_bind]
      have hne : name.chars ++ mark optional ≠ [] := by
        simp [name.chars_ne_nil]
      rw [hbuild, List.append_assoc, List.append_assoc]
      apply Reads.written (isWritten_of_mem_name name optional) hne
      apply reads_slots hslots (.pending hne (Alternative.ofWritten_name name optional))
      intro exprs a hends
      exact reads_list? hlist hends fun constraints b hlast => h _ b hlast
  | @ElementSpells.unnamed first others text hpairs, outer, sum, rest, k, h => by
      have hbuild : buildElement (.unnamed first others) >>= k =
          buildList (first :: others) >>= fun constraints => k (anyWith constraints) := by
        simp only [buildElement, bind_assoc, pure_bind]
      rw [hbuild, List.append_assoc, List.singleton_append]
      apply reads_list hpairs openList_anyObject
      intro constraints
      rw [Alternative.any_constrainedBy]
      exact h _ _ .made
  | @ElementSpells.method name, outer, sum, rest, k, h => by
      have hmark : IsWritten '#' := ⟨by decide, by decide⟩
      have hne : '#' :: name.chars ≠ [] := List.cons_ne_nil _ _
      apply Reads.written (isWritten_of_mem_cons hmark name) hne
      exact h _ _ (.pending hne (Alternative.ofWritten_method name))
  | @ElementSpells.token name, outer, sum, rest, k, h => by
      have hmark : IsWritten ':' := ⟨by decide, by decide⟩
      have hne : ':' :: name.chars ≠ [] := List.cons_ne_nil _ _
      apply Reads.written (isWritten_of_mem_cons hmark name) hne
      exact h _ _ (.pending hne (Alternative.ofWritten_token name))

theorem reads_slots {slots : List Outline} {written : List Char} : SlotsSpell slots written →
    ∀ {outer : List (List Alternative × List TypeExpr)} {sum : List Alternative} {rest : List Char}
      {a : Assembly} {name : String} {optional : Bool}
      {k : List TypeExpr → Except DefinitionError TypeExpr},
    Ends outer a (sum ++ [.mk name optional [] none]) →
    (∀ exprs b, Ends outer b (sum ++ [.mk name optional exprs none]) → Reads b rest (k exprs)) →
    Reads a (written ++ rest) (buildSlots slots >>= k)
  | .absent, outer, sum, rest, a, name, optional, k, hends, h => h [] a hends
  | @SlotsSpell.present slots text hslots, outer, sum, rest, a, name, optional, k, hends, h => by
      rw [List.append_assoc, List.singleton_append]
      apply hends.reads_openAngle
      apply reads_series hslots
      intro exprs
      exact h exprs _ .made

theorem reads_series {slots : List Outline} {written : List Char} : SeriesSpells slots written →
    ∀ {outer : List (List Alternative × List TypeExpr)} {sum : List Alternative} {rest : List Char}
      {name : String} {optional : Bool} {done : List TypeExpr}
      {k : List TypeExpr → Except DefinitionError TypeExpr},
    (∀ exprs, Reads ⟨outer, sum ++ [.mk name optional (done ++ exprs) none], [],
      .lastAlternative⟩ rest (k exprs)) →
    Reads ⟨(sum ++ [.mk name optional [] none], done) :: outer, [], [], .anyObject⟩
      (written ++ '>' :: rest) (buildSlots slots >>= k)
  | @SeriesSpells.last slot text hslot, outer, sum, rest, name, optional, done, k, h => by
      have hbuild : buildSlots [slot] >>= k = build slot >>= fun expr => k [expr] := by
        simp only [buildSlots, bind_assoc, pure_bind]
      rw [hbuild]
      apply reads_sum hslot
      intro expr a hends
      exact hends.reads_closeAngle (h [expr])
  | @SeriesSpells.more slot slots text others hslot hothers, outer, sum, rest, name, optional,
      done, k, h => by
      have hbuild : buildSlots (slot :: slots) >>= k = build slot >>= fun expr =>
          buildSlots slots >>= fun exprs => k (expr :: exprs) := by
        simp only [buildSlots, bind_assoc, pure_bind]
      rw [hbuild, List.append_assoc, List.cons_append]
      apply reads_sum hslot
      intro expr a hends
      apply hends.reads_comma
      apply reads_series hothers
      intro exprs
      rw [List.append_assoc]
      exact h (expr :: exprs)

end

end Assembly

/-- Whatever the layout, the assembly builds the tree of the outline. -/
theorem TypeExpr.assemble_eq_build {d : Outline} {text : List Char} (hd : d.Spells text) :
    TypeExpr.assemble text = d.build := by
  have hreads : Assembly.Reads Assembly.initial (text ++ []) (d.build >>= .ok) := by
    apply Assembly.reads_sum hd
    intro expr a hends
    exact hends.reads_nil
  rw [List.append_nil] at hreads
  have hbuild : d.build >>= Except.ok = d.build := bind_pure d.build
  rw [hbuild] at hreads
  rw [assemble_eq]
  exact hreads text 0

end DynTypes
