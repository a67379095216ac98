import DynTypes.Number.Binary64
/-!
# Decimal numerals

A numeral is kept as it is written, digit by digit, so that each user can apply its own rules to
it: some refuse leading zeros, some round, some want an integer.
-/

namespace DynTypes

/-- A decimal numeral: whole digits, perhaps a point with digits and perhaps an exponent. -/
structure Numeral where
  negative : Bool
  whole : List Char
  /-- The digits after the point, if there is one. -/
  fraction : Option (List Char)
  /-- The sign and the digits of the exponent, if there is one. -/
  exponent : Option (Bool × List Char)
deriving DecidableEq

namespace Numeral

/-- The number that a row of decimal digits stands for. -/
def digitsValue (digits : List Char) : Nat :=
  digits.foldl (fun n c => 10 * n + (c.toNat - '0'.toNat)) 0

/-- Cuts the digits at the start of a text from the rest. -/
def cutDigits (text : List Char) : List Char × List Char :=
  (text.takeWhile Char.isDigit, text.dropWhile Char.isDigit)

/-- Cuts a point and its digits from the start of a text, if a point stands there. -/
def cutFraction (text : List Char) : Option (List Char) × List Char :=
  match text with
  | '.' :: rest => (some (cutDigits rest).1, (cutDigits rest).2)
  | _ => (none, text)

/-- Cuts an exponent from the start of a text, if one stands there. -/
def cutExponent (text : List Char) : Option (Bool × List Char) × List Char :=
  let ofDigits (negative : Bool) (rest : List Char) :=
    (some (negative, (cutDigits rest).1), (cutDigits rest).2)
  let signed (rest : List Char) :=
    match rest with
    | '+' :: rest => ofDigits false rest
    | '-' :: rest => ofDigits true rest
    | rest => ofDigits false rest
  match text with
  | 'e' :: rest => signed rest
  | 'E' :: rest => signed rest
  | _ => (none, text)

/-- Cuts the longest numeral from the start of a text. Every row of digits may be empty. -/
def cut (text : List Char) : Numeral × List Char :=
  let (negative, text) :=
    match text with
    | '-' :: rest => (true, rest)
    | _ => (false, text)
  let (whole, text) := cutDigits text
  let (fraction, text) := cutFraction text
  let (exponent, text) := cutExponent text
  ({ negative, whole, fraction, exponent }, text)

def ofInt (n : Int) : Numeral where
  negative := n < 0
  whole := Nat.toDigits 10 n.natAbs
  fraction := none
  exponent := none

/-- All digits before the exponent. -/
def digits (n : Numeral) : List Char :=
  n.whole ++ n.fraction.getD []

/-- The power of ten that the digits, read as one integer, are multiplied by. -/
def scale (n : Numeral) : Int :=
  let written : Int :=
    match n.exponent with
    | none => 0
    | some (negative, digits) =>
      if negative then -(digitsValue digits : Int) else digitsValue digits
  written - (n.fraction.getD []).length

/-- The floating-point number nearest to a numeral. -/
def toBinary64 (n : Numeral) : Binary64 :=
  let value := digitsValue n.digits
  if value = 0 ∨ n.scale + n.digits.length < -400 then .zero n.negative
  else if 400 < n.scale then .infinity n.negative
  else
    let (num, den) := Binary64.scaled 10 value 1 (-n.scale)
    .ofRatio n.negative num den

end Numeral

namespace Binary64

/-- Reads a floating-point number: an optional sign, then a numeral with at least one digit, or
one of the words for infinity and for what is no number, in letters of either case. -/
def ofText? (text : List Char) : Option Binary64 :=
  let (negative, body) :=
    match text with
    | '-' :: rest => (true, rest)
    | '+' :: rest => (false, rest)
    | _ => (false, text)
  match String.ofList (body.map Char.toLower) with
  | "nan" => some nan
  | "inf" | "infinity" => some (infinity negative)
  | _ =>
    let (numeral, rest) := Numeral.cut body
    if numeral.negative || numeral.digits.isEmpty || !rest.isEmpty ||
        numeral.exponent.any (·.2.isEmpty) then
      none
    else
      some { numeral with negative }.toBinary64

end Binary64

end DynTypes
