import DynTypes.Text.CaseFolding
import DynTypes.Text.Category
import DynTypes.Text.WhiteSpace
/-!
# Sets of characters

What one place of a regular expression may match. A set is its membership test, so the operations
of bracketed classes are those of Boolean algebra.
-/

namespace DynTypes.Regex

/-- A set of characters, as its membership test. -/
abbrev CharSet := Char → Bool

namespace CharSet

def empty : CharSet := fun _ => false

def single (c : Char) : CharSet := (· == c)

def range (first last : Char) : CharSet := fun c => first ≤ c && c ≤ last

def union (s t : CharSet) : CharSet := fun c => s c || t c

def inter (s t : CharSet) : CharSet := fun c => s c && t c

/-- What lies in the first set only. -/
def diff (s t : CharSet) : CharSet := fun c => s c && !t c

/-- What lies in exactly one of two sets. -/
def symmDiff (s t : CharSet) : CharSet := fun c => s c != t c

def compl (s : CharSet) : CharSet := fun c => !s c

/-- What equals a member of the set up to the case of Latin letters. -/
def foldLatin (s : CharSet) : CharSet := fun c => s c || s c.toLower || s c.toUpper

/-- What equals a member of the set up to case. -/
def foldCase (s : CharSet) : CharSet := fun c => s c || (Text.caseVariants c).any s

def latinDigit : CharSet := Char.isDigit

/-- The Latin letters, the digits from 0 to 9 and the underscore. -/
def latinWord : CharSet := fun c => c.isAlphanum || c == '_'

/-- The white space among the first 128 characters. -/
def latinSpace : CharSet := fun c => Text.isWhiteSpace c && c.toNat < 0x80

/-- The sets that are written as a name between `[:` and `:]`. -/
def ofPosixName? : String → Option CharSet
  | "alnum" => some Char.isAlphanum
  | "alpha" => some Char.isAlpha
  | "ascii" => some fun c => c.toNat < 0x80
  | "blank" => some fun c => c == ' ' || c == '\t'
  | "cntrl" => some fun c => c.toNat < 0x20 || c.toNat == 0x7F
  | "digit" => some latinDigit
  | "graph" => some (range '!' '~')
  | "lower" => some Char.isLower
  | "print" => some (range ' ' '~')
  | "punct" => some fun c => range '!' '~' c && !c.isAlphanum
  | "space" => some latinSpace
  | "upper" => some Char.isUpper
  | "word" => some latinWord
  | "xdigit" => some fun c => c.isDigit || range 'a' 'f' c || range 'A' 'F' c
  | _ => none

/-- The set of the characters whose category passes a test. -/
def ofCategory (test : Text.Category → Bool) : CharSet := fun c => test (Text.Category.of c)

/-- A property name without case, blanks, marks between words and a leading "is". -/
def plainName (name : List Char) : String :=
  let plain (name : List Char) : String :=
    String.ofList ((name.filter fun c => c.toNat < 0x80 && c != ' ' && c != '_' && c != '-').map
      Char.toLower)
  match name with
  | i :: s :: rest =>
    if i.toLower == 'i' && s.toLower == 's' then
      if plain rest == "c" then "isc" else plain rest
    else plain name
  | _ => plain name

/-- The set that a plain category name stands for. -/
def ofCategoryName? : String → Option CharSet
  | "any" => some fun _ => true
  | "ascii" => some fun c => c.toNat < 0x80
  | "assigned" => some (ofCategory (· != .unassigned))
  | "c" | "other" => some (ofCategory Text.Category.isOther)
  | "cc" | "control" | "cntrl" => some (ofCategory (· == .control))
  | "cf" | "format" => some (ofCategory (· == .format))
  | "cn" | "unassigned" => some (ofCategory (· == .unassigned))
  | "co" | "privateuse" => some (ofCategory (· == .privateUse))
  | "l" | "letter" => some (ofCategory Text.Category.isLetter)
  | "lc" | "casedletter" => some (ofCategory Text.Category.isCasedLetter)
  | "ll" | "lowercaseletter" => some (ofCategory (· == .lowercaseLetter))
  | "lm" | "modifierletter" => some (ofCategory (· == .modifierLetter))
  | "lo" | "otherletter" => some (ofCategory (· == .otherLetter))
  | "lt" | "titlecaseletter" => some (ofCategory (· == .titlecaseLetter))
  | "lu" | "uppercaseletter" => some (ofCategory (· == .uppercaseLetter))
  | "m" | "mark" | "combiningmark" => some (ofCategory Text.Category.isMark)
  | "mc" | "spacingmark" => some (ofCategory (· == .spacingMark))
  | "me" | "enclosingmark" => some (ofCategory (· == .enclosingMark))
  | "mn" | "nonspacingmark" => some (ofCategory (· == .nonspacingMark))
  | "n" | "number" => some (ofCategory Text.Category.isNumber)
  | "nd" | "decimalnumber" | "digit" => some (ofCategory (· == .decimalNumber))
  | "nl" | "letternumber" => some (ofCategory (· == .letterNumber))
  | "no" | "othernumber" => some (ofCategory (· == .otherNumber))
  | "p" | "punctuation" | "punct" => some (ofCategory Text.Category.isPunctuation)
  | "pc" | "connectorpunctuation" => some (ofCategory (· == .connectorPunctuation))
  | "pd" | "dashpunctuation" => some (ofCategory (· == .dashPunctuation))
  | "pe" | "closepunctuation" => some (ofCategory (· == .closePunctuation))
  | "pf" | "finalpunctuation" => some (ofCategory (· == .finalPunctuation))
  | "pi" | "initialpunctuation" => some (ofCategory (· == .initialPunctuation))
  | "po" | "otherpunctuation" => some (ofCategory (· == .otherPunctuation))
  | "ps" | "openpunctuation" => some (ofCategory (· == .openPunctuation))
  | "s" | "symbol" => some (ofCategory Text.Category.isSymbol)
  | "sc" | "currencysymbol" => some (ofCategory (· == .currencySymbol))
  | "sk" | "modifiersymbol" => some (ofCategory (· == .modifierSymbol))
  | "sm" | "mathsymbol" => some (ofCategory (· == .mathSymbol))
  | "so" | "othersymbol" => some (ofCategory (· == .otherSymbol))
  | "z" | "separator" => some (ofCategory Text.Category.isSeparator)
  | "zl" | "lineseparator" => some (ofCategory (· == .lineSeparator))
  | "zp" | "paragraphseparator" => some (ofCategory (· == .paragraphSeparator))
  | "zs" | "spaceseparator" => some (ofCategory (· == .spaceSeparator))
  | _ => none

/-- The set of a property name that stands alone. -/
def ofProperty? (name : List Char) : Option CharSet :=
  ofCategoryName? (plainName name)

/-- The set of the characters with some value of a property. -/
def ofPropertyValue? (name value : List Char) : Option CharSet :=
  match plainName name with
  | "gc" | "generalcategory" => ofCategoryName? (plainName value)
  | _ => none

end CharSet

end DynTypes.Regex
