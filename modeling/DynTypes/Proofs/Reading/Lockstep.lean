import DynTypes.Proofs.Grammar.Viable
import DynTypes.Proofs.Reading.FrontAssembly
import DynTypes.Proofs.Reading.FrontPhase
import DynTypes.Proofs.Reading.ListEnd
import DynTypes.Regex.Builtin
/-!
# The two passes in step

The grammar machine counts open brackets; the parser has frames on a stack for each of them. The two
advance by different strides, since the machine takes a literal at once and the parser a whole
constraint list. `Stands` is what ties them together: behind the same text both are where the front
of that text says. Each character keeps it, and so does each list.
-/

namespace DynTypes

open Outline Grammar Token

section

variable [RegexEngine]

/-! ## Frames -/

namespace Parser

/-- A stack for some number of open collections. Below the slots of each lies the sum whose last
alternative they belong to. -/
inductive Nested : Nat → List Frame → Prop where
  | sum {alternatives : List Alternative} : Nested 0 [.sum alternatives]
  | slots {depth : Nat} {alternatives before : List Alternative} {owner : Alternative}
      {exprs : List TypeExpr} {below : List Frame}
      (h : Nested depth (.sum (before ++ [owner]) :: below)) :
      Nested (depth + 1) (.sum alternatives :: .slots exprs :: .sum (before ++ [owner]) :: below)

/-- What a parser holds behind a front: the contents of an assembly that holds the same. -/
inductive Holds (f : Front) : Parser → Prop where
  | toParser {a : Assembly} (h : a.Holds f) : Holds f a.toParser

end Parser

namespace Assembly

theorem nested_of_forall₂ {collections : List OpenCollection}
    {outer : List (List Alternative × List TypeExpr)}
    (houter : List.Forall₂ HoldsCollection collections outer) (sum : List Alternative) :
    Parser.Nested collections.length
      (.sum sum :: outer.flatMap fun kept => [.slots kept.2, .sum kept.1]) := by
  induction houter generalizing sum with
  | nil => exact .sum
  | cons hcollection _ ih =>
      cases hcollection with
      | mk =>
          rw [List.flatMap_cons]
          exact .slots (ih _)

theorem Holds.nested {f : Front} {a : Assembly} (h : Holds f a) :
    Parser.Nested f.outer.length a.frames := by
  cases h with
  | mk houter _ hbegun =>
      rw [frames, hbegun.outer_eq]
      exact nested_of_forall₂ houter a.sum

end Assembly

/-! ## Runs -/

/-- The runs of the parser. -/
abbrev Parser.Passes (text : List Char) : List Char → Parser → List Char → Prop :=
  Text.Passes (Parser.step text) Parser.initial text

/-- A constraint list behind `front`, as both passes take it. -/
structure Parser.TakesList (text front : List Char) (f : Front) (p : Parser) (behind : List Char)
    (pairs : List Pair) (inner rest : List Char) (e : Outline.Element) (sum : List Alternative) :
    Prop where
  behind_eq : behind = inner ++ ')' :: rest
  spells : PairsSpell pairs inner
  /-- The machine leaves the list at the parenthesis in front of `rest`. -/
  span : ListSpan text front inner rest
  /-- So does the reader of the list. -/
  read_eq : Constraints.read text [] [] (front.length + 1) 0 behind =
    (buildList pairs).map fun constraints => (constraints, inner.length + 1)
  element_eq : f.begun.withList? pairs = some e
  before_eq : buildElements f.before = .ok sum
  /-- It goes to the last alternative of the sum on top, and no frame below changes. -/
  step_eq : Parser.step text front.length p '(' behind = (buildElement e).map fun alternative =>
    (⟨.sum (sum ++ [alternative]) :: p.stack.tail, [], .lastAlternative⟩, inner.length + 1)
  holds : ∀ alternative, buildElement e = .ok alternative →
    Holds ⟨f.outer, f.before, .whole e⟩
      ⟨.sum (sum ++ [alternative]) :: p.stack.tail, [], .lastAlternative⟩

namespace Assembly

/-- Behind `front` and before `rest`, both passes are where the front says. -/
structure Stands (f : Front) (front : List Char) (a : Assembly) (rest : List Char) : Prop where
  reaches : Reaches front f.begun.phase f.outer.length rest
  spells : f.Spells front
  holds : a.Holds f

namespace Stands

variable {f : Front} {front rest text : List Char} {a : Assembly} {c : Char}

theorem start : Stands ⟨[], [], .nothing⟩ [] initial text where
  reaches := .start
  spells := Front.spells_nil
  holds := .mk .nil rfl .nothing

theorem char (h : Stands f front a (c :: rest)) (haccepts : Accepts .start 0 (front ++ c :: rest))
    (hc : c ≠ '(') :
    ∃ next b, f.Moves c next ∧ (∀ text index, step text index a c rest = .ok (b, 0)) ∧
      Stands next (front ++ [c]) b rest := by
  obtain ⟨target, hafter⟩ := Option.ne_none_iff_exists'.1 (h.reaches.accepts haccepts).after_ne_none
  obtain ⟨next, hmoves⟩ := Front.exists_moves hafter hc
  obtain ⟨b, hstep, hholds⟩ := h.holds.step hmoves
  -- outside of lists no literal begins, so the machine takes one character as well
  have hopener : ¬ (Token.ofChar c = slash ∨ Token.ofChar c = quote) := fun htoken =>
    f.begun.phase_ne_gap (after_opener htoken hmoves.after).1
  obtain ⟨hslash, hquote⟩ := not_or.1 hopener
  exact ⟨next, b, hmoves, hstep, h.reaches.char hslash hquote hmoves.after,
    hmoves.spells h.spells, hholds⟩

theorem list {behind : List Char} (h : Stands f front a ('(' :: behind))
    (haccepts : Accepts .start 0 (front ++ '(' :: behind)) :
    ∃ pairs inner rest e sum,
      Parser.TakesList (front ++ '(' :: behind) front f a.toParser behind pairs inner rest e sum ∧
      step (front ++ '(' :: behind) front.length a '(' behind =
        ((buildElement e).map fun alternative =>
          (⟨a.outer, sum ++ [alternative], [], .lastAlternative⟩, inner.length + 1)) ∧
      ∀ alternative, buildElement e = .ok alternative →
        Stands ⟨f.outer, f.before, .whole e⟩ (front ++ '(' :: inner ++ [')'])
          ⟨a.outer, sum ++ [alternative], [], .lastAlternative⟩ rest := by
  have hopen := h.reaches.accepts haccepts
  obtain ⟨pairs, inner, rest, rfl, hpairs, hreaches, hspan⟩ := h.reaches.exists_listSpan hopen
  obtain ⟨target, hafter⟩ := Option.ne_none_iff_exists'.1 hopen.after_ne_none
  have hne : pairs ≠ [] := by
    rintro rfl
    cases hpairs
  obtain ⟨e, he, hbare⟩ := Begun.exists_withList hne hafter
  obtain ⟨sum, hbefore, hstep, hholds⟩ := h.holds.step_list hpairs he
  refine ⟨pairs, inner, rest, e, sum, ?_, hstep _ _, ?_⟩
  · refine ⟨rfl, hpairs, hspan, ?_, he, hbefore, ?_, fun alternative hbuild =>
      .toParser (hholds alternative hbuild)⟩
    · rw [Constraints.read_pairs hpairs, buildList]
      cases pairs.mapM Pair.build with
      | error err => rfl
      | ok constraints =>
          simp only [ok_bind, List.nil_append]
          cases Constraints.ofList constraints <;> rfl
    · rw [step_toParser, hstep]
      cases buildElement e <;> rfl
  · intro alternative hbuild
    refine ⟨?_, h.spells.list hpairs he, hholds alternative hbuild⟩
    rw [Begun.phase, hbare]
    exact hreaches

/-- Each step of the assembly leads to where the machine comes to. -/
theorem next {b : Assembly} {taken : List Char} (h : Stands f front a (c :: (taken ++ rest)))
    (haccepts : Accepts .start 0 (front ++ c :: (taken ++ rest)))
    (hstep : step (front ++ c :: (taken ++ rest)) front.length a c (taken ++ rest) =
      .ok (b, taken.length)) :
    ∃ next, Stands next (front ++ c :: taken) b rest := by
  by_cases hc : c = '('
  · subst hc
    obtain ⟨pairs, inner, behind, e, sum, hlist, htakes, hstands⟩ := h.list haccepts
    rw [htakes] at hstep
    cases hbuild : buildElement e with
    | error err =>
        rw [hbuild] at hstep
        contradiction
    | ok alternative =>
        rw [hbuild] at hstep
        obtain ⟨rfl, hlength⟩ := Prod.mk.inj (Except.ok.inj hstep)
        -- what the assembly has used up is the list with its closing parenthesis
        have hbehind := hlist.behind_eq
        rw [← List.singleton_append, ← List.append_assoc] at hbehind
        obtain ⟨rfl, rfl⟩ := List.append_inj hbehind (by simpa using hlength.symm)
        have hnext := hstands alternative hbuild
        rw [List.append_assoc] at hnext
        exact ⟨_, hnext⟩
  · obtain ⟨next, b', -, hchar, hnext⟩ := h.char haccepts hc
    rw [hchar] at hstep
    obtain ⟨rfl, hlength⟩ := Prod.mk.inj (Except.ok.inj hstep)
    obtain rfl := List.length_eq_zero_iff.1 hlength.symm
    exact ⟨next, hnext⟩

/-- Wherever a run of the assembly comes to, the machine has come there. -/
theorem exists_of_passes (haccepts : Accepts .start 0 text)
    (h : Text.Passes (step text) initial text front a rest) : ∃ f, Stands f front a rest := by
  induction h with
  | start => exact ⟨_, .start⟩
  | step hpasses hstep ih =>
      obtain ⟨f, hstands⟩ := ih
      rw [← hpasses.append_eq] at haccepts hstep
      exact hstands.next haccepts hstep

theorem exists_element (h : Stands f front a rest)
    (haccepts : Accepts .start 0 (front ++ rest)) (hrest : ∀ c ∈ rest.head?, c ∈ ['|', ',', '>']) :
    ∃ e, f.begun.element? = some e := by
  have hhere := h.reaches.accepts haccepts
  cases rest with
  | nil => exact Begun.exists_element_of_mayEnd hhere.mayEnd.1
  | cons c rest =>
      obtain ⟨target, hafter⟩ := Option.ne_none_iff_exists'.1 hhere.after_ne_none
      have hc := hrest c rfl
      simp only [List.mem_cons, List.not_mem_nil, or_false] at hc
      obtain rfl | rfl | rfl := hc <;> exact Begun.exists_element hafter (by decide)

end Stands

theorem Holds.exists_closeName {f : Front} {a : Assembly} (h : Holds f a) {e : Outline.Element}
    (he : f.begun.element? = some e) :
    ∃ q sum, a.toParser.closeName = .ok q ∧ q.stack = .sum sum :: a.toParser.stack.tail ∧
      sum ≠ [] ∧ buildElements (f.before ++ [e]) = .ok sum := by
  cases h with
  | mk _ hbefore hbegun =>
      obtain ⟨alternative, hbuild, hends⟩ := hbegun.ends he
      refine ⟨{ a with sum := _, name := [] }.toParser, _, ?_, rfl, ?_,
        buildElements_concat hbefore hbuild⟩
      · rw [closeName_toParser, hends.flushName, ← hbegun.outer_eq]
        rfl
      · exact List.append_ne_nil_of_right_ne_nil _ (List.cons_ne_nil _ _)

end Assembly

/-! ## In step -/

/-- What the two passes over `text` have to do with each other behind `front`, whose outline is
`f`. -/
structure Parser.InStep (text front : List Char) (p : Parser) (rest : List Char) (s : State)
    (f : Front) : Prop where
  /-- Behind `front` the machine is in this state and in no other. -/
  passes_iff : ∀ s', Grammar.Passes text front s' rest ↔ s' = s
  /-- The machine is in no constraint list. -/
  lists_eq : s.lists = 0
  /-- There are frames for as many collections as the machine counts. -/
  nested : Nested s.collections p.stack
  spells : f.Spells front
  holds : Holds f p
  /-- Where a sum ends, its last alternative is made. -/
  ends : (∀ c ∈ rest.head?, c ∈ ['|', ',', '>']) → ∃ e q sum, f.begun.element? = some e ∧
    p.closeName = .ok q ∧ q.stack = .sum sum :: p.stack.tail ∧ sum ≠ [] ∧
    buildElements (f.before ++ [e]) = .ok sum
  /-- At the end of the text no collection is open. -/
  closed : rest = [] → s.collections = 0
  char : ∀ c behind, rest = c :: behind → c ≠ '(' → ∃ next q, f.Moves c next ∧
    Parser.step text front.length p c behind = .ok (q, 0) ∧ Holds next q
  list : ∀ behind, rest = '(' :: behind → ∃ pairs inner after e sum,
    TakesList text front f p behind pairs inner after e sum

theorem Assembly.Stands.inStep {f : Front} {front rest : List Char} {a : Assembly}
    (h : Stands f front a rest) (haccepts : Accepts .start 0 (front ++ rest)) :
    Parser.InStep (front ++ rest) front a.toParser rest (f.begun.phase.state f.outer.length) f where
  passes_iff := by
    intro s'
    constructor
    · intro hpasses
      obtain ⟨phase, depth, rfl, hreaches⟩ := hpasses.exists_reaches
      exact hreaches.state_eq h.reaches
    · rintro rfl
      exact h.reaches.passes
  lists_eq := f.begun.lists_phase f.outer.length
  nested := by
    rw [Phase.collections_state]
    exact h.holds.nested
  spells := h.spells
  holds := .toParser h.holds
  ends := by
    intro hrest
    obtain ⟨e, he⟩ := h.exists_element haccepts hrest
    obtain ⟨q, sum, hclose, hstack, hne, hsum⟩ := h.holds.exists_closeName he
    exact ⟨e, q, sum, he, hclose, hstack, hne, hsum⟩
  closed := by
    rintro rfl
    rw [Phase.collections_state]
    exact (h.reaches.accepts haccepts).mayEnd.2
  char := by
    rintro c behind rfl hc
    obtain ⟨next, b, hmoves, hstep, hstands⟩ := h.char haccepts hc
    refine ⟨next, b.toParser, hmoves, ?_, .toParser hstands.holds⟩
    rw [step_toParser, hstep]
    rfl
  list := by
    rintro behind rfl
    obtain ⟨pairs, inner, after, e, sum, hlist, -⟩ := h.list haccepts
    exact ⟨pairs, inner, after, e, sum, hlist⟩

/-- The reading of a definition that keeps the grammar is in step with the check of it, wherever it
has come to: the stack has frames for the collections that are open, each belongs to the name in
front of it, a list ends where the machine leaves it, and no sum ends without an alternative. -/
theorem TypeExpr.inStep_of_passes {definition : String}
    (hvalid : Grammar.validate definition = .ok ()) {front rest : List Char} {p : Parser}
    (h : Parser.Passes definition.toList front p rest) :
    front ++ rest = definition.toList ∧
      TypeExpr.parse definition =
        (Text.scan (Parser.step definition.toList) front.length 0 p rest >>= Parser.finish) ∧
      ∃ s f, Parser.InStep definition.toList front p rest s f := by
  have haccepts : Accepts .start 0 definition.toList := (check_eq_ok_iff _).1 hvalid
  have htext := h.append_eq
  refine ⟨htext, ?_, ?_⟩
  · rw [TypeExpr.parse, hvalid]
    exact congrArg (· >>= Parser.finish) h.scan_eq
  · obtain ⟨a, rfl, hpasses⟩ := Assembly.exists_of_passes h
    obtain ⟨f, hstands⟩ := Assembly.Stands.exists_of_passes haccepts hpasses
    rw [← htext] at haccepts ⊢
    exact ⟨_, f, hstands.inStep haccepts⟩

end

/-- In front of a list, inside of a collection. -/
theorem TypeExpr.inStep_of_passes_slot :
    let definition := "A<:b |C?(#m)>"
    let front := ['A', '<', ':', 'b', ' ', '|', 'C', '?']
    let rest := ['(', '#', 'm', ')', '>']
    let p : Parser := ⟨[.sum [anyWith (.singleton (.val (.token ":b")))], .slots [],
      .sum [.mk "A" false [] none]], ['C', '?'], .pendingName⟩
    Grammar.validate definition = .ok () ∧ Parser.Passes definition.toList front p rest ∧
      ∃ s f, Parser.InStep definition.toList front p rest s f := by
  intro definition front rest p
  have hvalid : Grammar.validate definition = .ok () := by decide
  have hstart : ∀ {rest}, definition.toList = rest →
      Parser.Passes definition.toList [] Parser.initial rest := by
    rintro _ rfl
    exact .start
  have htext : definition.toList =
      ['A', '<', ':', 'b', ' ', '|', 'C', '?', '(', '#', 'm', ')', '>'] := by decide
  have hslot := (((hstart htext).char rfl).char rfl).char rfl
  have hname := ((((hslot.char rfl).char rfl).char rfl).char rfl).char rfl
  have hpasses : Parser.Passes definition.toList front p rest := hname
  exact ⟨hvalid, hpasses, (TypeExpr.inStep_of_passes hvalid hpasses).2.2⟩

end DynTypes
