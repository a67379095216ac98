/-!
# What is wrong with a definition

A definition can break the grammar, or keep it and hold a constraint that makes no sense. Every
error names its cause; the wording stands in one function for each type.
-/

namespace DynTypes

/-- Why a text is outside the grammar. -/
inductive GrammarError.Cause where
  | empty
  /-- A character stands where the grammar forbids it. -/
  | unexpected (c : Char)
  /-- A literal with this delimiter is never closed. -/
  | unterminated (delimiter : Char)
  | emptyPattern
  /-- A bracket is open at the end; the character would close it. -/
  | missing (closer : Char)
  /-- The definition stops after a character that cannot end it. -/
  | illegalEnd
deriving DecidableEq, Repr

def GrammarError.Cause.message : GrammarError.Cause → String
  | empty => "the definition is empty"
  | unexpected c => "unexpected '" ++ c.toString ++ "'"
  | unterminated delimiter => "literal is missing a closing '" ++ delimiter.toString ++ "'"
  | emptyPattern => "regular expression has no body"
  | missing closer => "missing a '" ++ closer.toString ++ "'"
  | illegalEnd => "ends with an illegal character"

/-- A text is outside the grammar. -/
structure GrammarError where
  cause : GrammarError.Cause
  /-- The number of the character that shows it, counted from zero. -/
  position : Nat
  /-- The text up to that character, inclusive. -/
  excerpt : String
deriving DecidableEq, Repr

namespace GrammarError

/-- The error that shows at some position of a text. -/
def atPosition (cause : Cause) (text : List Char) (position : Nat) : GrammarError where
  cause
  position
  excerpt := String.ofList (text.take (position + 1))

/-- The error that shows at the end of a text. -/
def atEnd (cause : Cause) (text : List Char) : GrammarError :=
  .atPosition cause text (text.length - 1)

def message (e : GrammarError) : String :=
  "Syntax error at position " ++ e.position.repr ++ ": " ++ e.cause.message ++
    " (here: " ++ e.excerpt ++ ")"

end GrammarError

/-- What is wrong with the value of a constraint. -/
inductive ConstraintFault where
  | emptyMethod
  | notPattern
  /-- The body of a pattern cannot be compiled; the reason is that of the engine. -/
  | badPattern {reason : String}
  | notInteger
  | emptyLiteral
deriving DecidableEq, Repr

def ConstraintFault.message : ConstraintFault → String
  | emptyMethod => "method name is empty"
  | notPattern => "not a regular expression"
  | @badPattern reason => reason
  | notInteger => "not an integer"
  | emptyLiteral => "literal is empty"

/-- A tree that cannot be put together from its parts. -/
inductive ShapeFault where
  | noAlternatives
  | noSlots
  | noConstraints
  | noOpenSum
  | slotOutsideCollection
  | missingSlots
  | nothingToAttachTo
  | pairWithoutColon
  | openConstraintList
  | openCollection
deriving DecidableEq, Repr

def ShapeFault.message : ShapeFault → String
  | noAlternatives => "type expression has no alternatives"
  | noSlots => "collection has no child slots"
  | noConstraints => "constraint list is empty"
  | noOpenSum => "no open sum"
  | slotOutsideCollection => "slot closed outside a collection"
  | missingSlots => "collection closed without slots"
  | nothingToAttachTo => "no element to attach to"
  | pairWithoutColon => "constraint pair without a colon"
  | openConstraintList => "constraint list never closed"
  | openCollection => "unbalanced frames at end of definition"

/-- Why a definition gives no type expression. -/
inductive DefinitionError where
  /-- The text is outside the grammar. -/
  | malformed (error : GrammarError)
  /-- An alternative has two constraints with the same key. -/
  | duplicateConstraint (key : String)
  | unknownConstraint (identifier : String)
  | invalidConstraint (identifier value : String) (fault : ConstraintFault)
  /-- Parts do not fit together. -/
  | misshapen (fault : ShapeFault)
deriving DecidableEq, Repr

def DefinitionError.message : DefinitionError → String
  | malformed error => error.message
  | duplicateConstraint key => "Duplicate constraint: " ++ key
  | unknownConstraint identifier => "Unknown constraint: " ++ identifier
  | invalidConstraint identifier value fault =>
    "Invalid value for constraint " ++ identifier ++ ": " ++ value ++ " (" ++ fault.message ++ ")"
  | misshapen fault => "Internal error: " ++ fault.message

end DynTypes
