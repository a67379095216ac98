/-!
# Engines of regular expressions

What a regular expression means is left to an engine. It is handed the text of an expression with
the switches that are on, and compiles it or says why it cannot; and it tells whether what it has
compiled matches somewhere in a text.
-/

namespace DynTypes

/-- The switches that a regular expression is compiled under. -/
structure RegexSwitches where
  /-- Letters match in either case. -/
  ignoreCase : Bool := false
  /-- The anchors match at every line. -/
  multiLine : Bool := false
  /-- The dot matches line ends too. -/
  dotAll : Bool := false
  /-- White space and comments in the expression do not count. -/
  extended : Bool := false
deriving DecidableEq, Repr

/-- An engine of regular expressions. -/
class RegexEngine where
  /-- What an expression is compiled to. -/
  Expression : Type
  compile : RegexSwitches → List Char → Except String Expression
  /-- Whether an expression matches somewhere in a text. -/
  isMatch : Expression → List Char → Bool

end DynTypes
