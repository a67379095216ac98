import DynTypes.Definition.Delimited
import DynTypes.Text.Scan
import DynTypes.Text.WhiteSpace
/-!
# The grammar of definitions

A definition is a sum of alternatives with bars between them. An alternative is a name (`String`),
perhaps optional (`Integer?`), with the slots of a collection (`Hash<Symbol, String>`) and a list
of constraints (`Integer(min: 0, max: 10)`). A list alone belongs to any object, and so does a bare
constraint (`#to_s`, `:ok`). A constraint of a list is `identifier: value`, `#method` or `:token`.

The grammar is kept by a machine that knows which classes of characters may follow. It goes over
the characters once, from left to right, and stops at the first that no definition could have
there.
-/

namespace DynTypes.Grammar

/-- The classes of characters that the grammar tells apart, and the end of the text. -/
inductive Token where
  | bar
  | openAngle
  | closeAngle
  | openParen
  | closeParen
  | hash
  | colon
  | slash
  | quote
  | comma
  | space
  | question
  | other
  | finish
deriving DecidableEq, Repr

open Token

/-! ### What may follow outside of constraint lists -/

def atAlternative : List Token := [.hash, colon, openParen, other, space]

def inName : List Token :=
  [other, question, openAngle, openParen, bar, closeAngle, comma, space, finish]

/-- Behind the mark of an optional name. -/
def afterQuestion : List Token := [openAngle, openParen, bar, closeAngle, comma, space, finish]

def afterSlots : List Token := [openParen, bar, closeAngle, comma, space, finish]

def afterAlternative : List Token := [bar, closeAngle, comma, space, finish]

/-- What a bare constraint cannot have behind it. -/
def notBehindBare : List Token := [openAngle, openParen, question]

/-! ### What may follow inside of constraint lists -/

def atPair : List Token := [.hash, colon, other, space]

def inIdentifier : List Token := [other, colon]

def inMethod : List Token := [other, comma, closeParen, space]

/-- Behind the colon of an identifier. -/
def atValue : List Token := [space, slash, quote, other]

def inValue : List Token := [other, comma, closeParen, space]

def afterValue : List Token := [comma, closeParen, space]

/-- The parts of a pair in a constraint list. -/
inductive PairPart where
  | start
  | identifier
  | method
  | value
deriving DecidableEq, Repr

/-- What is known in front of some character of a definition. -/
structure State where
  /-- What may follow. -/
  expected : List Token
  /-- What may not follow until the alternative at hand ends. -/
  barred : List Token
  /-- How many collections are open. -/
  collections : Nat
  /-- How many constraint lists are open. -/
  lists : Nat
  /-- The part of a pair that is being read, inside a constraint list. -/
  part : Option PairPart
deriving DecidableEq, Repr

namespace State

def initial : State where
  expected := atAlternative
  barred := []
  collections := 0
  lists := 0
  part := none

/-- Whether a token may come next. -/
def admits (s : State) (token : Token) : Bool :=
  s.expected.contains token && !s.barred.contains token

def isBare (s : State) : Bool :=
  notBehindBare.all s.barred.contains

def inList (s : State) : Bool :=
  s.lists > 0

def inSlots (s : State) : Bool :=
  s.collections > 0

/-- The class of a character. Some characters are ordinary where they could not mean anything:
`#` and `:` in a value, and `?` in a pair or a bare constraint. -/
def tokenOf (s : State) (c : Char) : Token :=
  let readsValue := s.part == some .value
  match c with
  | '|' => bar
  | '<' => openAngle
  | '>' => closeAngle
  | '(' => openParen
  | ')' => closeParen
  | ',' => comma
  | '"' => quote
  | '/' => slash
  | '#' => if readsValue then other else .hash
  | ':' => if readsValue then other else colon
  | '?' => if s.part.isNone && !s.isBare then question else other
  | c => if Text.isWhiteSpace c then space else other

/-- Whether the brackets that are open leave room for a token. -/
def fits (s : State) : Token → Bool
  | .closeAngle => s.inSlots
  | .comma => s.inList || s.inSlots
  | .openParen => !s.inList
  | .closeParen | .slash | .quote => s.inList
  | _ => true

/-- Which closing bracket is missing; that of a collection comes first. -/
def missingCloser? (s : State) : Option Char :=
  if s.collections > 0 then some '>'
  else if s.lists > 0 then some ')'
  else none

/-- The state behind a token that is not the start of a delimited literal. -/
def after (s : State) : Token → State
  | .bar => { s with barred := [], expected := atAlternative }
  | .openAngle => { s with collections := s.collections + 1, expected := atAlternative }
  | .closeAngle => { s with collections := s.collections - 1, barred := [], expected := afterSlots }
  | .openParen => { s with lists := s.lists + 1, part := some .start, expected := atPair }
  | .closeParen => { s with lists := s.lists - 1, part := none, expected := afterAlternative }
  | .hash =>
    if s.inList then { s with part := some .method, expected := [other] }
    else { s with barred := notBehindBare, expected := [other] }
  | .colon =>
    if s.inList then
      { s with
        part := some .value
        expected := if s.part = some .start then [other] else atValue }
    else { s with barred := notBehindBare, expected := [other] }
  | .comma =>
    if s.inList then { s with part := some .start, expected := atPair }
    else { s with barred := [], expected := atAlternative }
  | .space =>
    if s.inList then
      if s.admits closeParen then { s with expected := afterValue } else s
    else if s.admits finish then { s with expected := afterAlternative }
    else s
  | .question => { s with expected := afterQuestion }
  | .other =>
    if s.inList then
      match s.part with
      | some .method => { s with expected := inMethod }
      | some .value => { s with expected := inValue }
      | _ => { s with part := some .identifier, expected := inIdentifier }
    else { s with expected := inName }
  | .slash | .quote => { s with expected := afterValue }
  | .finish => s

end State

/-- Takes character number `index` of a text, which is `c` and stands in front of `rest`. A
delimited literal is taken as a whole. -/
def step (text : List Char) (index : Nat) (s : State) (c : Char) (rest : List Char) :
    Except GrammarError (State × Nat) :=
  let token := s.tokenOf c
  if s.admits token && s.fits token then
    if token = slash ∨ token = quote then
      (Delimiter.span text index c rest).map fun used => (s.after token, used)
    else .ok (s.after token, 0)
  else .error (.atPosition (.unexpected c) text index)

/-- Whether a definition may end in a state. -/
def conclude (text : List Char) (s : State) : Except GrammarError Unit :=
  match s.missingCloser? with
  | some closer => .error (.atEnd (.missing closer) text)
  | none => if s.admits .finish then .ok () else .error (.atEnd .illegalEnd text)

/-- Checks that the characters of a definition keep the grammar. -/
def check (text : List Char) : Except GrammarError Unit :=
  if text.isEmpty then .error (.atPosition .empty text 0)
  else do
    let s ← Text.scan (step text) 0 0 State.initial text
    conclude text s

/-- Checks that a definition keeps the grammar; the error is the first in the text. -/
def validate (definition : String) : Except GrammarError Unit :=
  check definition.toList

end DynTypes.Grammar
