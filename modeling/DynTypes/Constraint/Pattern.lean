import DynTypes.Definition.Delimited
import DynTypes.Regex.Engine
/-!
# Patterns

A regular expression as it is written in a definition, together with what an engine compiles it to.
In the written form a backslash in front of a slash only keeps the literal open.
-/

namespace DynTypes

variable [RegexEngine]

namespace Pattern

/-- Takes away the backslash in front of a slash; every other escape stays as it is. -/
def stripSlashEscapes : List Char → List Char
  | [] => []
  | '\\' :: '/' :: rest => '/' :: stripSlashEscapes rest
  | '\\' :: c :: rest => '\\' :: c :: stripSlashEscapes rest
  | c :: rest => c :: stripSlashEscapes rest

/-- What the engine compiles a body under flags to, or why it cannot. -/
def compile (body flags : List Char) : Except String RegexEngine.Expression :=
  RegexEngine.compile
    { ignoreCase := flags.contains 'i'
      multiLine := flags.contains 'm'
      dotAll := flags.contains 's'
      extended := flags.contains 'x' }
    (stripSlashEscapes body)

/-- The parts of a text before and behind its last slash. -/
def cutLastSlash? : List Char → Option (List Char × List Char)
  | [] => none
  | c :: rest =>
    match cutLastSlash? rest with
    | some (before, behind) => some (c :: before, behind)
    | none => if c = '/' then some ([], rest) else none

/-- The body and the flags of a literal `/body/flags`. -/
def cutLiteral? : List Char → Option (List Char × List Char)
  | '/' :: rest => (cutLastSlash? rest).filter fun (_, flags) => flags.all literalFlags.contains
  | _ => none

end Pattern

/-- A regular expression as it is written, with what it is compiled to. -/
structure Pattern where
  /-- What stands between the slashes. -/
  body : String
  /-- What stands behind the slashes. -/
  flags : String
  /-- What the body means under the flags. -/
  regex : RegexEngine.Expression
  compile_eq : Pattern.compile body.toList flags.toList = .ok regex

namespace Pattern

/-- The pattern of a body under flags, or why the engine cannot compile it. -/
def ofParts (body flags : String) : Except String Pattern :=
  match h : compile body.toList flags.toList with
  | .ok regex => .ok { body, flags, regex, compile_eq := h }
  | .error reason => .error reason

/-- The pattern of a body under flags, if it is a regular expression. -/
def ofParts? (body flags : String) : Option Pattern :=
  (ofParts body flags).toOption

/-- A pattern is what is written. -/
theorem ext_iff {p q : Pattern} : p = q ↔ p.body = q.body ∧ p.flags = q.flags := by
  constructor
  · rintro rfl
    exact ⟨rfl, rfl⟩
  · rintro ⟨hbody, hflags⟩
    obtain ⟨body, flags, regex, hp⟩ := p
    obtain ⟨body', flags', regex', hq⟩ := q
    obtain rfl : body = body' := hbody
    obtain rfl : flags = flags' := hflags
    obtain rfl : regex = regex' := Except.ok.inj (hp.symm.trans hq)
    rfl

instance : DecidableEq Pattern := fun _ _ => decidable_of_iff _ ext_iff.symm

def search (p : Pattern) (text : String) : Bool :=
  RegexEngine.isMatch p.regex text.toList

def render (p : Pattern) : List Char :=
  '/' :: p.body.toList ++ '/' :: p.flags.toList

end Pattern

end DynTypes
