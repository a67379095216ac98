import DynTypes.Definition.Delimited
import DynTypes.Text.WhiteSpace
/-!
# Outlines of definitions

An outline is what a definition says, apart from where its white space stands: nested sums of
alternatives, their marks, slots and constraint lists. `Outline.Spells` relates an outline to
every text it can be written as. The relation is the grammar of definitions, production by
production; it knows nothing of the machine that checks texts or of the assembly that reads them.
-/

namespace DynTypes

namespace Outline

/-! ## Words -/

/-- The characters that stand for something by themselves. -/
def reserved : List Char :=
  ['|', '<', '>', '(', ')', ',', '"', '/', '#', ':', '?']

/-- The characters of names. -/
def isNameChar (c : Char) : Bool :=
  !reserved.contains c && !Text.isWhiteSpace c

/-- The characters of methods, of identifiers and of bare constraints. -/
def isMethodChar (c : Char) : Bool :=
  isNameChar c || c == '?'

/-- The characters of bare values. -/
def isTokenChar (c : Char) : Bool :=
  isMethodChar c || c == '#' || c == ':'

/-- A text of at least one character, all of them of one class. -/
structure Word (allowed : Char → Bool) where
  chars : List Char
  chars_ne_nil : chars ≠ []
  allowed_of_mem : ∀ c ∈ chars, allowed c = true

/-- White space only, perhaps none. -/
def Blank (text : List Char) : Prop :=
  ∀ c ∈ text, Text.isWhiteSpace c = true

/-! ## Values and pairs -/

/-- What may stand between the delimiters of a literal: characters other than a backslash and
the closing delimiter, and pairs of a backslash with any character. -/
inductive Units (closing : Char) : List Char → Prop where
  | nil : Units closing []
  | plain {c : Char} {rest : List Char} (hbackslash : c ≠ '\\') (hclosing : c ≠ closing)
      (hrest : Units closing rest) : Units closing (c :: rest)
  | escaped {c : Char} {rest : List Char} (hrest : Units closing rest) :
      Units closing ('\\' :: c :: rest)

/-- The value of a pair, as it is written. -/
inductive Value where
  | bare (token : Word isTokenChar)
  | quoted (body : List Char) (units_body : Units '"' body)
  | regex (body flags : List Char) (units_body : Units '/' body) (body_ne_nil : body ≠ [])
      (flags_subset : ∀ c ∈ flags, c ∈ literalFlags)

/-- The text of a value. -/
def Value.text : Value → List Char
  | .bare token => token.chars
  | .quoted body _ => '"' :: body ++ ['"']
  | .regex body flags _ _ _ => '/' :: body ++ '/' :: flags

/-- One constraint of a list: `#method`, `:token` or `identifier: value`. -/
inductive Pair where
  | method (name : Word isMethodChar)
  | token (token : Word isTokenChar)
  | value (identifier : Word isMethodChar) (value : Value)

end Outline

mutual

/-- A sum: its first alternative and the others. -/
inductive Outline where
  | sum (first : Outline.Element) (rest : List Outline.Element)

/-- An alternative. A name without slots or without pairs has no brackets for them either. -/
inductive Outline.Element where
  | named (name : Outline.Word Outline.isNameChar) (optional : Bool) (slots : List Outline)
      (pairs : List Outline.Pair)
  | unnamed (first : Outline.Pair) (rest : List Outline.Pair)
  | method (name : Outline.Word Outline.isMethodChar)
  | token (name : Outline.Word Outline.isMethodChar)

end

namespace Outline

/-! ## Spelling -/

/-- The mark of an optional name. -/
def mark (optional : Bool) : List Char :=
  if optional then ['?'] else []

/-- How a pair is written. -/
inductive Pair.Spells : Pair → List Char → Prop where
  | method {name : Word isMethodChar} {left right : List Char} (hleft : Blank left)
      (hright : Blank right) : Pair.Spells (.method name) (left ++ '#' :: name.chars ++ right)
  | token {token : Word isTokenChar} {left right : List Char} (hleft : Blank left)
      (hright : Blank right) : Pair.Spells (.token token) (left ++ ':' :: token.chars ++ right)
  | value {identifier : Word isMethodChar} {value : Value} {left gap right : List Char}
      (hleft : Blank left) (hgap : Blank gap) (hright : Blank right) :
      Pair.Spells (.value identifier value)
        (left ++ identifier.chars ++ ':' :: gap ++ value.text ++ right)

/-- How pairs are written one after the other. -/
inductive PairsSpell : List Pair → List Char → Prop where
  | last {pair : Pair} {text : List Char} (hpair : pair.Spells text) : PairsSpell [pair] text
  | more {pair : Pair} {pairs : List Pair} {text others : List Char} (hpair : pair.Spells text)
      (hothers : PairsSpell pairs others) : PairsSpell (pair :: pairs) (text ++ ',' :: others)

/-- How the constraint list of a named alternative is written. -/
inductive ListSpells : List Pair → List Char → Prop where
  | absent : ListSpells [] []
  | present {pairs : List Pair} {text : List Char} (hpairs : PairsSpell pairs text) :
      ListSpells pairs ('(' :: text ++ [')'])

mutual

/-- How a sum is written. -/
inductive Spells : Outline → List Char → Prop where
  | last {e : Element} {left text right : List Char} (hleft : Blank left)
      (helement : ElementSpells e text) (hright : Blank right) :
      Spells (.sum e []) (left ++ text ++ right)
  | more {e next : Element} {rest : List Element} {left text right others : List Char}
      (hleft : Blank left) (helement : ElementSpells e text) (hright : Blank right)
      (hothers : Spells (.sum next rest) others) :
      Spells (.sum e (next :: rest)) (left ++ text ++ right ++ '|' :: others)

/-- How an alternative is written, without the white space around it. -/
inductive ElementSpells : Element → List Char → Prop where
  | named {name : Word isNameChar} {optional : Bool} {slots : List Outline} {pairs : List Pair}
      {inner list : List Char} (hslots : SlotsSpell slots inner) (hlist : ListSpells pairs list) :
      ElementSpells (.named name optional slots pairs)
        (name.chars ++ mark optional ++ inner ++ list)
  | unnamed {first : Pair} {rest : List Pair} {text : List Char}
      (hpairs : PairsSpell (first :: rest) text) :
      ElementSpells (.unnamed first rest) ('(' :: text ++ [')'])
  | method {name : Word isMethodChar} : ElementSpells (.method name) ('#' :: name.chars)
  | token {name : Word isMethodChar} : ElementSpells (.token name) (':' :: name.chars)

/-- How the slots of a named alternative are written. -/
inductive SlotsSpell : List Outline → List Char → Prop where
  | absent : SlotsSpell [] []
  | present {slots : List Outline} {text : List Char} (hslots : SeriesSpells slots text) :
      SlotsSpell slots ('<' :: text ++ ['>'])

/-- How slots are written one after the other. -/
inductive SeriesSpells : List Outline → List Char → Prop where
  | last {slot : Outline} {text : List Char} (hslot : Spells slot text) :
      SeriesSpells [slot] text
  | more {slot : Outline} {slots : List Outline} {text others : List Char}
      (hslot : Spells slot text) (hothers : SeriesSpells slots others) :
      SeriesSpells (slot :: slots) (text ++ ',' :: others)

end

end Outline

end DynTypes
