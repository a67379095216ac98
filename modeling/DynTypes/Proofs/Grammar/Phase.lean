import DynTypes.Definition.Grammar
/-!
# Phases of the grammar machine

The machine keeps what it expects, what it bars, two counters and a part of a pair. Of all the
states that these could make up, a text leads to one for each phase and each number of open
collections only. `Phase.state` names these states, `Phase.after` is the table of their
transitions, and `step_state` says that the machine does what the table says.
-/

namespace DynTypes.Grammar

open Token

/-- The class of a character taken by itself. -/
def Token.ofChar (c : Char) : Token :=
  match c with
  | '|' => bar
  | '<' => openAngle
  | '>' => closeAngle
  | '(' => openParen
  | ')' => closeParen
  | ',' => comma
  | '"' => quote
  | '/' => slash
  | '#' => .hash
  | ':' => colon
  | '?' => question
  | c => if Text.isWhiteSpace c then space else other

/-- Where in an alternative or in a constraint list the machine is. -/
inductive Phase where
  /-- In front of an alternative. -/
  | start
  /-- Behind the `#` or the `:` of a bare constraint. -/
  | bareMark
  /-- In the word of a bare constraint. -/
  | bareWord
  | name
  /-- Behind the mark of a name. -/
  | marked
  /-- Behind the slots of a name. -/
  | slotted
  /-- Behind an alternative, which may be a bare constraint. -/
  | done (isBare : Bool)
  | pair
  | identifier
  /-- Behind the `#` of a method. -/
  | hash
  | method
  /-- Behind a `:` that starts a pair. -/
  | colon
  /-- In front of a value. -/
  | gap
  | token
  /-- Behind a pair, which may be a method. -/
  | closed (isMethod : Bool)
deriving DecidableEq, Repr

namespace Phase

/-- The state of the machine in a phase, with some number of open collections. -/
def state (phase : Phase) (depth : Nat) : State :=
  match phase with
  | start => ⟨atAlternative, [], depth, 0, none⟩
  | bareMark => ⟨[other], notBehindBare, depth, 0, none⟩
  | bareWord => ⟨inName, notBehindBare, depth, 0, none⟩
  | name => ⟨inName, [], depth, 0, none⟩
  | marked => ⟨afterQuestion, [], depth, 0, none⟩
  | slotted => ⟨afterSlots, [], depth, 0, none⟩
  | done isBare => ⟨afterAlternative, if isBare then notBehindBare else [], depth, 0, none⟩
  | pair => ⟨atPair, [], depth, 1, some .start⟩
  | identifier => ⟨inIdentifier, [], depth, 1, some .identifier⟩
  | hash => ⟨[other], [], depth, 1, some .method⟩
  | method => ⟨inMethod, [], depth, 1, some .method⟩
  | colon => ⟨[other], [], depth, 1, some .value⟩
  | gap => ⟨atValue, [], depth, 1, some .value⟩
  | token => ⟨inValue, [], depth, 1, some .value⟩
  | closed isMethod => ⟨afterValue, [], depth, 1, some (if isMethod then .method else .value)⟩

theorem collections_state (phase : Phase) (depth : Nat) :
    (phase.state depth).collections = depth := by
  cases phase <;> rfl

theorem lists_state (phase : Phase) (depth : Nat) :
    (phase.state depth).lists = (phase.state 0).lists := by
  cases phase <;> rfl

/-- What may stand behind a complete alternative: the phase that follows, and the number of open
collections there. -/
def afterDone (isBare : Bool) (depth : Nat) : Token → Option (Phase × Nat)
  | bar => some (start, depth)
  | comma => if depth = 0 then none else some (start, depth)
  | closeAngle => if depth = 0 then none else some (slotted, depth - 1)
  | space => some (done isBare, depth)
  | _ => none

/-- What may stand behind a complete pair. -/
def afterClosed (isMethod : Bool) (depth : Nat) : Token → Option (Phase × Nat)
  | comma => some (pair, depth)
  | closeParen => some (done false, depth)
  | space => some (closed isMethod, depth)
  | _ => none

/-- The phase behind a character, and the number of open collections there; none where no
definition goes on with such a character. A delimited literal counts as one character. -/
def after (phase : Phase) (depth : Nat) (token : Token) : Option (Phase × Nat) :=
  match phase, token with
  | start, .hash | start, .colon => some (bareMark, depth)
  | start, openParen => some (pair, depth)
  | start, other => some (name, depth)
  | start, space => some (start, depth)
  | bareMark, other | bareMark, question => some (bareWord, depth)
  | bareWord, other | bareWord, question => some (bareWord, depth)
  | bareWord, token => afterDone true depth token
  | name, other => some (name, depth)
  | name, question => some (marked, depth)
  | name, openAngle | marked, openAngle => some (start, depth + 1)
  | name, openParen | marked, openParen | slotted, openParen => some (pair, depth)
  | name, token | marked, token | slotted, token => afterDone false depth token
  | done isBare, token => afterDone isBare depth token
  | pair, .hash => some (hash, depth)
  | pair, .colon => some (colon, depth)
  | pair, other | pair, question => some (identifier, depth)
  | pair, space => some (pair, depth)
  | identifier, other | identifier, question => some (identifier, depth)
  | identifier, .colon => some (gap, depth)
  | hash, other | hash, question => some (method, depth)
  | method, other | method, question => some (method, depth)
  | method, token => afterClosed true depth token
  | colon, other | colon, question | colon, .hash | colon, .colon => some (.token, depth)
  | gap, other | gap, question | gap, .hash | gap, .colon => some (.token, depth)
  | gap, slash | gap, quote => some (closed false, depth)
  | gap, space => some (gap, depth)
  | .token, other | .token, question | .token, .hash | .token, .colon => some (.token, depth)
  | .token, token => afterClosed false depth token
  | closed isMethod, token => afterClosed isMethod depth token
  | _, _ => none

/-- The phases in which an alternative is complete. -/
def mayEnd : Phase → Bool
  | bareWord | name | marked | slotted | done _ => true
  | _ => false

/-- The phase behind a construct that may stop here, for the phases inside of one. -/
def base? : Phase → Option Phase
  | bareWord => some (done true)
  | name => some marked
  | marked => some slotted
  | slotted => some (done false)
  | method => some (closed true)
  | .token => some (closed false)
  | _ => none

/-- The classes of characters with which such a construct goes on. -/
def own : Phase → List Token
  | bareWord | name | method => [other, question]
  | marked => [openAngle]
  | slotted => [openParen]
  | .token => [other, question, .hash, .colon]
  | _ => []

theorem after_own {phase next : Phase} {token : Token} (hbase : phase.base? = some next)
    (hown : token ∈ phase.own) (depth : Nat) : next.after depth token = none := by
  cases phase <;> cases hbase <;> cases token <;> first | rfl | exact absurd hown (by decide)

theorem after_eq_base {phase next : Phase} {token : Token} (hbase : phase.base? = some next)
    (hown : token ∉ phase.own) (depth : Nat) :
    phase.after depth token = next.after depth token := by
  cases phase <;> cases hbase <;> cases token <;> first | rfl | exact absurd (by decide) hown

theorem mayEnd_eq_base {phase next : Phase} (hbase : phase.base? = some next) :
    phase.mayEnd = next.mayEnd := by
  cases phase <;> cases hbase <;> rfl

theorem ne_gap_of_base {phase next : Phase} (hbase : phase.base? = some next) :
    phase ≠ gap ∧ next ≠ gap := by
  cases phase <;> cases hbase <;> decide

end Phase

/-- The class of a character in some state, when its own class is known. -/
def State.read (s : State) : Token → Token
  | .hash => if s.part = some .value then other else .hash
  | .colon => if s.part = some .value then other else .colon
  | question => if s.part.isNone && !s.isBare then question else other
  | token => token

theorem tokenOf_eq_read (s : State) (c : Char) : s.tokenOf c = s.read (.ofChar c) := by
  unfold State.tokenOf Token.ofChar
  split <;> simp only [State.read, beq_iff_eq]
  split <;> rfl

theorem ofChar_ne_finish (c : Char) : Token.ofChar c ≠ finish := by
  unfold Token.ofChar
  split <;> simp only [ne_eq, reduceCtorEq, not_false_eq_true]
  split <;> simp

/-- Reading a class in a state never makes or unmakes the start of a literal. -/
theorem read_opensLiteral (s : State) (token : Token) :
    (s.read token = slash ∨ s.read token = quote) ↔ (token = slash ∨ token = quote) := by
  cases token <;> simp only [State.read] <;> (try split) <;> simp

/-- The table of transitions is that of the machine. -/
theorem after_state (phase : Phase) (depth : Nat) {token : Token} (htoken : token ≠ finish) :
    (if (phase.state depth).admits ((phase.state depth).read token) &&
        (phase.state depth).fits ((phase.state depth).read token) then
      some ((phase.state depth).after ((phase.state depth).read token))
    else none) =
      (phase.after depth token).map fun (next, opened) => next.state opened := by
  -- `comma` and `closeAngle` ask whether a collection is open, so the depth is split as well
  cases token with
  | finish => contradiction
  | _ =>
      cases phase with
      | done flag => cases flag <;> cases depth <;> rfl
      | closed flag => cases flag <;> cases depth <;> rfl
      | _ => cases depth <;> rfl

/-- What the machine does at a character, read off the table. -/
theorem step_state (text : List Char) (index : Nat) (phase : Phase) (depth : Nat) (c : Char)
    (rest : List Char) :
    step text index (phase.state depth) c rest =
      match phase.after depth (.ofChar c) with
      | none => .error (.atPosition (.unexpected c) text index)
      | some (next, opened) =>
        if Token.ofChar c = slash ∨ Token.ofChar c = quote then
          (Delimiter.span text index c rest).map fun used => (next.state opened, used)
        else .ok (next.state opened, 0) := by
  have htable := after_state phase depth (ofChar_ne_finish c)
  simp only [step, tokenOf_eq_read, read_opensLiteral]
  cases hafter : phase.after depth (.ofChar c) with
  | none =>
      rw [hafter] at htable
      rw [if_neg]
      intro hadmits
      rw [if_pos hadmits] at htable
      contradiction
  | some next =>
      rw [hafter] at htable
      split at htable
      · next hadmits =>
        rw [if_pos hadmits, Option.some.inj htable]
      · contradiction

end DynTypes.Grammar
