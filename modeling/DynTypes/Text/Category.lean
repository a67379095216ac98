import DynTypes.Text.CategoryTable
/-!
# General categories

Every code point belongs to one of thirty categories. The table of runs is read once; a look-up
halves the runs that can hold the code point until one is left.
-/

namespace DynTypes.Text

/-- The general categories of code points. -/
inductive Category where
  | uppercaseLetter | lowercaseLetter | titlecaseLetter | modifierLetter
  | otherLetter | nonspacingMark | spacingMark | enclosingMark
  | decimalNumber | letterNumber | otherNumber | connectorPunctuation
  | dashPunctuation | openPunctuation | closePunctuation | initialPunctuation
  | finalPunctuation | otherPunctuation | mathSymbol | currencySymbol
  | modifierSymbol | otherSymbol | spaceSeparator | lineSeparator
  | paragraphSeparator | control | format | surrogate
  | privateUse | unassigned
deriving DecidableEq, Repr

namespace Category

/-- The category with a two-letter name. -/
def ofName? : String → Option Category
  | "Lu" => some .uppercaseLetter
  | "Ll" => some .lowercaseLetter
  | "Lt" => some .titlecaseLetter
  | "Lm" => some .modifierLetter
  | "Lo" => some .otherLetter
  | "Mn" => some .nonspacingMark
  | "Mc" => some .spacingMark
  | "Me" => some .enclosingMark
  | "Nd" => some .decimalNumber
  | "Nl" => some .letterNumber
  | "No" => some .otherNumber
  | "Pc" => some .connectorPunctuation
  | "Pd" => some .dashPunctuation
  | "Ps" => some .openPunctuation
  | "Pe" => some .closePunctuation
  | "Pi" => some .initialPunctuation
  | "Pf" => some .finalPunctuation
  | "Po" => some .otherPunctuation
  | "Sm" => some .mathSymbol
  | "Sc" => some .currencySymbol
  | "Sk" => some .modifierSymbol
  | "So" => some .otherSymbol
  | "Zs" => some .spaceSeparator
  | "Zl" => some .lineSeparator
  | "Zp" => some .paragraphSeparator
  | "Cc" => some .control
  | "Cf" => some .format
  | "Cs" => some .surrogate
  | "Co" => some .privateUse
  | "Cn" => some .unassigned
  | _ => none

def isLetter : Category → Bool
  | uppercaseLetter | lowercaseLetter | titlecaseLetter | modifierLetter | otherLetter => true
  | _ => false

/-- Letters that come in two cases. -/
def isCasedLetter : Category → Bool
  | uppercaseLetter | lowercaseLetter | titlecaseLetter => true
  | _ => false

def isMark : Category → Bool
  | nonspacingMark | spacingMark | enclosingMark => true
  | _ => false

def isNumber : Category → Bool
  | decimalNumber | letterNumber | otherNumber => true
  | _ => false

def isPunctuation : Category → Bool
  | connectorPunctuation | dashPunctuation | openPunctuation | closePunctuation
  | initialPunctuation | finalPunctuation | otherPunctuation => true
  | _ => false

def isSymbol : Category → Bool
  | mathSymbol | currencySymbol | modifierSymbol | otherSymbol => true
  | _ => false

def isSeparator : Category → Bool
  | spaceSeparator | lineSeparator | paragraphSeparator => true
  | _ => false

/-- Everything that is neither letter, mark, number, punctuation, symbol nor separator. -/
def isOther : Category → Bool
  | control | format | surrogate | privateUse | unassigned => true
  | _ => false

/-- Reads one run of the table: its category and the number of code points in it. -/
private def readRun (text : String) : Category × Nat :=
  let letters := String.ofList (text.toList.take 2)
  let digits := String.ofList (text.toList.drop 2)
  ((ofName? letters).getD unassigned, digits.toNat?.getD 1)

/-- The runs of the table, each with its first code point. -/
def runs : Array (Nat × Category) :=
  ((categoryRuns.flatMap (·.splitOn " ")).foldl
    (fun (acc : Nat × Array (Nat × Category)) text =>
      let (category, count) := readRun text
      (acc.1 + count, acc.2.push (acc.1, category)))
    (0, #[])).2

/-- Of the runs from `low` up to, but not with, `high`, the one that holds `codePoint`. -/
def find (codePoint low high : Nat) : Category :=
  if low + 1 < high then
    let middle := (low + high) / 2
    if runs[middle]?.any (·.1 ≤ codePoint) then find codePoint middle high
    else find codePoint low middle
  else
    runs[low]?.elim unassigned (·.2)
termination_by high - low

def of (c : Char) : Category :=
  find c.toNat 0 runs.size

end Category

/-- The characters of words: letters, marks, digits, joining punctuation and a few more. -/
def isWordChar (c : Char) : Bool :=
  let n := c.toNat
  if n < 0x80 then
    c.isAlphanum || c == '_'
  else
    let category := Category.of c
    category.isLetter || category.isMark || category == .decimalNumber ||
      category == .letterNumber || category == .connectorPunctuation ||
      n == 0x200C || n == 0x200D || (0x24B6 ≤ n && n ≤ 0x24E9) ||
      (0x1F130 ≤ n && n ≤ 0x1F149) || (0x1F150 ≤ n && n ≤ 0x1F169) ||
      (0x1F170 ≤ n && n ≤ 0x1F189)

/-- The decimal digits of every script. -/
def isDecimalDigit (c : Char) : Bool :=
  if c.toNat < 0x80 then c.isDigit else Category.of c == .decimalNumber

end DynTypes.Text
