import DynTypes.Text.Category
/-!
# Quoted text

The written form of a text between double quotes, in which every character that a reader could
not see or could mistake is escaped.
-/

namespace DynTypes.Text

/-- Ranges of the characters that extend the one before them without being marks of the kinds
that all do. -/
def otherGraphemeExtendRanges : List (Nat × Nat) :=
  [ (0x9BE, 0x9BE), (0x9D7, 0x9D7), (0xB3E, 0xB3E), (0xB57, 0xB57), (0xBBE, 0xBBE),
    (0xBD7, 0xBD7), (0xCC2, 0xCC2), (0xCD5, 0xCD6), (0xD3E, 0xD3E), (0xD57, 0xD57),
    (0xDCF, 0xDCF), (0xDDF, 0xDDF), (0x1B35, 0x1B35), (0x200C, 0x200C), (0x302E, 0x302F),
    (0xFF9E, 0xFF9F), (0x1133E, 0x1133E), (0x11357, 0x11357), (0x114B0, 0x114B0),
    (0x114BD, 0x114BD), (0x115AF, 0x115AF), (0x11930, 0x11930), (0x1D165, 0x1D165),
    (0x1D16E, 0x1D172), (0xE0020, 0xE007F) ]

/-- The characters that only extend the one before them. -/
def extendsGrapheme (c : Char) : Bool :=
  let category := Category.of c
  category == .nonspacingMark || category == .enclosingMark ||
    otherGraphemeExtendRanges.any fun (first, last) => first ≤ c.toNat && c.toNat ≤ last

/-- Whether a character is written as itself: it stands on its own and leaves ink, or is a
blank. -/
def isPrintable (c : Char) : Bool :=
  if c.toNat < 0x80 then
    0x20 ≤ c.toNat && c.toNat < 0x7F
  else
    let category := Category.of c
    !(category.isOther || category.isSeparator || extendsGrapheme c)

/-- One character of a quoted text. -/
def quoteChar (c : Char) : List Char :=
  match c with
  | '"' => ['\\', '"']
  | '\\' => ['\\', '\\']
  | '\n' => ['\\', 'n']
  | '\r' => ['\\', 'r']
  | '\t' => ['\\', 't']
  | '\x00' => ['\\', '0']
  | c =>
    if isPrintable c then [c]
    else ['\\', 'u', '\x7b'] ++ Nat.toDigits 16 c.toNat ++ ['\x7d']

/-- A text between double quotes. -/
def quote (text : List Char) : List Char :=
  '"' :: text.flatMap quoteChar ++ ['"']

end DynTypes.Text
