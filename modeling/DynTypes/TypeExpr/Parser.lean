import DynTypes.Definition.Grammar
import DynTypes.TypeExpr.Basic
/-!
# Reading definitions

A definition that keeps the grammar is put together to a type expression in one pass over its
characters. The sums and slots that are still open lie on a stack; the name that is being read
waits until it is clear that it has ended. Nothing in the type of the stack says which of its frames
can lie on which, so each use of one looks at its kind.
-/

namespace DynTypes

variable [RegexEngine]

/-- Reads one pair of a constraint list: `#method`, `:token` or `identifier: value`, with white
space around it. -/
def Constraint.ofPair (raw : List Char) : Except DefinitionError Constraint :=
  match Text.trim raw with
  | '#' :: method => Constraint.parse "#" (String.ofList method)
  | pair =>
    if pair.head? = some ':' then Constraint.parse "val" (String.ofList pair)
    else
      match pair.span (· != ':') with
      | (identifier, _ :: value) =>
        Constraint.parse (String.ofList (Text.trim identifier)) (String.ofList value)
      | (_, []) => .error (.misshapen .pairWithoutColon)

/-- The alternative for a name as it is written; `#method` and `:token` are constraints on any
object. -/
def Alternative.ofWritten (written : List Char) : Except DefinitionError Alternative :=
  let bare (c : Constraint) : Alternative :=
    Alternative.any.constrainedBy (.singleton c)
  match written with
  | '#' :: method => (Constraint.parse "#" (String.ofList method)).map bare
  | ':' :: _ => (Constraint.parse "val" (String.ofList written)).map bare
  | _ => .ok (.ofName (String.ofList written))

/-- Reads a constraint list behind its opening parenthesis, from character number `index` of
`text` on. The next `literal` characters belong to a delimited literal. Answers with the
constraints and the number of characters up to and with the closing parenthesis. -/
def Constraints.read (text : List Char) (raw : List Char) (done : List Constraint) :
    (index literal : Nat) → List Char → Except DefinitionError (Constraints × Nat)
  | _, _, [] => .error (.misshapen .openConstraintList)
  | index, literal + 1, c :: rest =>
    (Constraints.read text (raw ++ [c]) done (index + 1) literal rest).map
      fun (constraints, used) => (constraints, used + 1)
  | index, 0, c :: rest =>
    if c = ')' then do
      let pair ← Constraint.ofPair raw
      let constraints ← Constraints.ofList (done ++ [pair])
      return (constraints, 1)
    else if c = ',' then do
      let pair ← Constraint.ofPair raw
      let (constraints, used) ← Constraints.read text [] (done ++ [pair]) (index + 1) 0 rest
      return (constraints, used + 1)
    else do
      let literal ←
        if (Delimiter.ofChar? c).isSome then
          (Delimiter.span text index c rest).mapError DefinitionError.malformed
        else .ok 0
      let (constraints, used) ← Constraints.read text (raw ++ [c]) done (index + 1) literal rest
      return (constraints, used + 1)

/-- What an opening parenthesis attaches to. -/
inductive Owner where
  /-- Nothing has been written: any object is meant. -/
  | anyObject
  /-- A name is being read. -/
  | pendingName
  /-- The last alternative of the sum is complete. -/
  | lastAlternative
deriving DecidableEq, Repr

/-- What lies on the stack of a parser. -/
inductive Parser.Frame where
  /-- The alternatives of a sum. -/
  | sum (alternatives : List Alternative)
  /-- The slots of a collection that are complete. -/
  | slots (exprs : List TypeExpr)

/-- A parser of definitions. -/
structure Parser where
  /-- What is open, innermost first. -/
  stack : List Parser.Frame
  name : List Char
  /-- What a parenthesis would attach to. -/
  owner : Owner

namespace Parser

def initial : Parser where
  stack := [.sum []]
  name := []
  owner := .anyObject

/-- Adds an alternative to the sum at hand. -/
def push (alternative : Alternative) (p : Parser) : Except DefinitionError Parser :=
  match p.stack with
  | .sum alternatives :: below =>
    .ok { p with stack := .sum (alternatives ++ [alternative]) :: below }
  | _ => .error (.misshapen .noOpenSum)

/-- Takes the last alternative away from the sum at hand. -/
def pop (p : Parser) : Except DefinitionError (Alternative × Parser) :=
  match p.stack with
  | .sum alternatives :: below =>
    match alternatives.getLast? with
    | some alternative =>
      .ok (alternative, { p with stack := .sum alternatives.dropLast :: below })
    | none => .error (.misshapen .nothingToAttachTo)
  | _ => .error (.misshapen .noOpenSum)

/-- Makes an alternative of the name that is being read, if there is one. -/
def closeName (p : Parser) : Except DefinitionError Parser :=
  if p.name.isEmpty then .ok p
  else do
    let alternative ← Alternative.ofWritten p.name
    { p with name := [] }.push alternative

/-- Makes the sum at hand the next slot of the collection below it. -/
def closeSlot (p : Parser) : Except DefinitionError Parser :=
  match p.stack with
  | .sum alternatives :: below => do
    let slot ← TypeExpr.ofAlternatives alternatives
    match below with
    | .slots exprs :: below => return { p with stack := .slots (exprs ++ [slot]) :: below }
    | _ => .error (.misshapen .slotOutsideCollection)
  | _ => .error (.misshapen .slotOutsideCollection)

/-- Gives the slots on top of the stack to the last alternative of the sum below them. That there
are slots is made sure of before an alternative is asked for. -/
def closeCollection (p : Parser) : Except DefinitionError Parser :=
  match p.stack with
  | .slots exprs :: below =>
    if exprs.isEmpty then .error (.misshapen .noSlots)
    else do
      let (alternative, p) ← { p with stack := below }.pop
      let alternative ← alternative.holding exprs
      p.push alternative
  | _ => .error (.misshapen .missingSlots)

/-- Makes sure that there is an alternative for a constraint list to belong to. -/
def openList (p : Parser) : Except DefinitionError Parser :=
  match p.owner with
  | .anyObject => p.push .any
  | .pendingName => p.closeName
  | .lastAlternative => .ok p

/-- Takes character number `index` of a text, which is `c` and stands in front of `rest`. A
constraint list is taken as a whole. -/
def step (text : List Char) (index : Nat) (p : Parser) (c : Char) (rest : List Char) :
    Except DefinitionError (Parser × Nat) :=
  match c with
  | '|' => do
    let p ← p.closeName
    return ({ p with owner := .anyObject }, 0)
  | '<' => do
    let p ← p.closeName
    return ({ p with stack := .sum [] :: .slots [] :: p.stack, owner := .anyObject }, 0)
  | ',' => do
    let p ← p.closeName
    let p ← p.closeSlot
    return ({ p with stack := .sum [] :: p.stack, owner := .anyObject }, 0)
  | '>' => do
    let p ← p.closeName
    let p ← p.closeSlot
    let p ← p.closeCollection
    return ({ p with owner := .lastAlternative }, 0)
  | '(' => do
    let p ← p.openList
    let (constraints, used) ← Constraints.read text [] [] (index + 1) 0 rest
    let (alternative, p) ← p.pop
    let p ← p.push (alternative.constrainedBy constraints)
    return ({ p with owner := .lastAlternative }, used)
  | c =>
    if Text.isWhiteSpace c then .ok (p, 0)
    else .ok ({ p with name := p.name ++ [c], owner := .pendingName }, 0)

/-- The expression at the end of a text. -/
def finish (p : Parser) : Except DefinitionError TypeExpr := do
  let p ← p.closeName
  match p.stack with
  | [.sum alternatives] => TypeExpr.ofAlternatives alternatives
  | _ => .error (.misshapen .openCollection)

end Parser

namespace TypeExpr

/-- Puts the characters of a definition together, without a look at the grammar. -/
def assemble (text : List Char) : Except DefinitionError TypeExpr := do
  let p ← Text.scan (Parser.step text) 0 0 Parser.initial text
  p.finish

/-- Reads a definition. -/
def parse (definition : String) : Except DefinitionError TypeExpr := do
  (Grammar.validate definition).mapError DefinitionError.malformed
  assemble definition.toList

end TypeExpr

end DynTypes
