import DynTypes.Number.Binary64
/-!
# The shortest decimal of a floating-point number

Of all decimals that lie nearer to a number than to any other, the ones with the fewest digits are
wanted, and of those the one nearest to the number. On each decimal grid only the two neighbours
of the number can qualify, so trying the grids from coarse to fine finds it.
-/

namespace DynTypes.Binary64

/-- The count of decimal digits of a natural number. -/
def decimalLength (n : Nat) : Nat :=
  (Nat.toDigits 10 n).length

/-- The least `k` with `num / den < 10 ^ k`, for a positive quotient. -/
def magnitude (num den : Nat) : Int :=
  let guess : Int := (decimalLength num : Int) - decimalLength den
  let (n, d) := scaled 10 num den guess
  if n < d then guess else guess + 1

/-- The multiple of `10 ^ place` nearest to `mantissa * 2 ^ exponent`, as a count of units, among
those that read back as that number. A tie between two goes up.

The interval of what reads back reaches half a unit in the last place to both sides, and only a
quarter below the least mantissa of a binade; its ends belong to it if the mantissa is even. -/
def candidate? (mantissa : Nat) (exponent place : Int) : Option Nat :=
  let (n, d) := scaled 10 1 1 place
  let (ulp, unit) := scaled 2 n d (-exponent)
  let low := mantissa * ulp / unit
  let below := mantissa * ulp - low * unit
  let above := (low + 1) * unit - mantissa * ulp
  let narrow := mantissa = Nat.pow 2 52 ∧ -1074 < exponent
  let reaches (distance room : Nat) : Bool :=
    if mantissa % 2 = 0 then distance ≤ room else distance < room
  let lowOk := reaches ((if narrow then 4 else 2) * below) ulp
  let highOk := reaches (2 * above) ulp
  if lowOk && (below < above || !highOk) then some low
  else if highOk then some (low + 1)
  else none

/-- The shortest decimal of a positive number: its digits as a natural number and the power of
ten that they count. Seventeen digits always suffice. -/
def shortest (mantissa : Nat) (exponent : Int) : Nat × Int :=
  let (num, den) := scaled 2 mantissa 1 (-exponent)
  let top := magnitude num den
  let places := (List.range 17).map fun (i : Nat) => top - (i + 1)
  (places.findSome? fun place => (candidate? mantissa exponent place).map (·, place)).getD (0, 0)

/-- The decimal `digits * 10 ^ place` in positional notation, with a point only where a fraction
follows it. -/
def positional (digits : Nat) (place : Int) : List Char :=
  let unit := Nat.pow 10 (-place).toNat
  let whole := Nat.toDigits 10 (digits * Nat.pow 10 place.toNat / unit)
  let fraction := Nat.toDigits 10 (digits * Nat.pow 10 place.toNat % unit)
  let padding := List.replicate ((-place).toNat - fraction.length) '0'
  let kept := ((padding ++ fraction).reverse.dropWhile (· == '0')).reverse
  if kept.isEmpty then whole else whole ++ '.' :: kept

/-- The text of a number in the fewest digits that read back, never with an exponent. An integer
below `10 ^ 16` keeps one digit after the point. -/
def text : Binary64 → List Char
  | nan => "NaN".toList
  | infinity negative => (if negative then "-Infinity" else "Infinity").toList
  | finite negative mantissa exponent lt mem =>
    let sign := if negative then ['-'] else []
    match natAbs? (finite negative mantissa exponent lt mem) with
    | some n =>
      if n < Nat.pow 10 16 then sign ++ Nat.toDigits 10 n ++ ['.', '0']
      else
        let (digits, place) := shortest mantissa exponent
        sign ++ positional digits place
    | none =>
      let (digits, place) := shortest mantissa exponent
      sign ++ positional digits place

end DynTypes.Binary64
