/-!
# Binary floating-point numbers of 64 bits

A number is kept as the exact value it denotes: `mantissa * 2 ^ exponent` with a sign. Arithmetic
takes the exact result as a quotient of naturals and rounds it once, to the nearest number and on
a tie to the one with the even mantissa.
-/

namespace DynTypes

/-- A 64-bit floating-point number. -/
inductive Binary64 where
  | nan
  /-- An infinity, below all finite numbers if `negative`. -/
  | infinity (negative : Bool)
  /-- The number `mantissa * 2 ^ exponent`, or its negation. -/
  | finite (negative : Bool) (mantissa : Nat) (exponent : Int)
      (mantissa_lt : mantissa < Nat.pow 2 53)
      (exponent_mem : -1074 ≤ exponent ∧ exponent ≤ 971)
deriving DecidableEq

namespace Binary64

/-- Zero, with a sign. -/
def zero (negative : Bool) : Binary64 :=
  .finite negative 0 (-1074) (by decide) (by decide)

/-- The quotient rounded to the nearest natural number, ties to the even one. -/
def roundDiv (num den : Nat) : Nat :=
  let quotient := num / den
  let remainder := num % den
  if 2 * remainder < den then quotient
  else if den < 2 * remainder then quotient + 1
  else quotient + quotient % 2

/-- The ratio `num / den / base ^ exponent`, again as a pair of naturals. -/
def scaled (base num den : Nat) (exponent : Int) : Nat × Nat :=
  (num * Nat.pow base (-exponent).toNat, den * Nat.pow base exponent.toNat)

/-- The number nearest to `num / den`; a value beyond the largest number gives an infinity. -/
def ofRatio (negative : Bool) (num den : Nat) : Binary64 :=
  if num = 0 then zero negative
  else
    let low : Int := max ((num.log2 : Int) - den.log2 - 53) (-1074)
    let (n, d) := scaled 2 num den low
    let exponent := if n / d < Nat.pow 2 53 then low else low + 1
    let (n, d) := scaled 2 num den exponent
    let rounded := roundDiv n d
    let (mantissa, exponent) :=
      if rounded = Nat.pow 2 53 then (Nat.pow 2 52, exponent + 1) else (rounded, exponent)
    if h : mantissa < Nat.pow 2 53 ∧ -1074 ≤ exponent ∧ exponent ≤ 971 then
      .finite negative mantissa exponent h.1 h.2
    else .infinity negative

/-- The number nearest to an integer. -/
def ofInt (n : Int) : Binary64 :=
  ofRatio (n < 0) n.natAbs 1

/-- The sign bit; a number that is none counts as positive. -/
def isNegative : Binary64 → Bool
  | nan => false
  | infinity negative => negative
  | finite negative .. => negative

def isInfinite : Binary64 → Bool
  | infinity _ => true
  | _ => false

def isZero : Binary64 → Bool
  | finite _ mantissa .. => mantissa == 0
  | _ => false

def neg : Binary64 → Binary64
  | nan => nan
  | infinity negative => infinity (!negative)
  | finite negative mantissa exponent lt mem => finite (!negative) mantissa exponent lt mem

/-- The product, rounded. -/
def mul : Binary64 → Binary64 → Binary64
  | finite s m e .., finite t n f .. =>
    let (num, den) := scaled 2 (m * n) 1 (-(e + f))
    ofRatio (s != t) num den
  | nan, _ | _, nan => nan
  | x, y => if x.isZero || y.isZero then nan else infinity (x.isNegative != y.isNegative)

/-- The quotient, rounded. -/
def div : Binary64 → Binary64 → Binary64
  | finite s m e .., finite t n f .. =>
    if n = 0 then
      if m = 0 then nan else infinity (s != t)
    else
      let (num, den) := scaled 2 m n (f - e)
      ofRatio (s != t) num den
  | nan, _ | _, nan => nan
  | infinity _, infinity _ => nan
  | infinity s, y => infinity (s != y.isNegative)
  | x, infinity t => zero (x.isNegative != t)

/-- The integer `± mantissa * 2 ^ (exponent - base)`, for a `base` not above the exponent. -/
def signedAt (base : Int) (negative : Bool) (mantissa : Nat) (exponent : Int) : Int :=
  let magnitude : Int := (mantissa * Nat.pow 2 (exponent - base).toNat : Nat)
  if negative then -magnitude else magnitude

/-- The order of two numbers by value; none if one of them is no number. The two zeros are
equal. -/
def compare : Binary64 → Binary64 → Option Ordering
  | nan, _ | _, nan => none
  | infinity s, infinity t =>
    some (if s = t then .eq else if s then .lt else .gt)
  | infinity s, finite .. => some (if s then .lt else .gt)
  | finite .., infinity t => some (if t then .gt else .lt)
  | finite s m e .., finite t n f .. =>
    let base := min e f
    some (Ord.compare (signedAt base s m e) (signedAt base t n f))

/-- Equality by value: the two zeros are equal and a number that is none differs from itself. -/
instance : BEq Binary64 where
  beq x y := x.compare y == some .eq

/-- The absolute value as an integer, if it is one. -/
def natAbs? : Binary64 → Option Nat
  | finite _ mantissa exponent .. =>
    let (num, den) := scaled 2 mantissa 1 (-exponent)
    if num % den = 0 then some (num / den) else none
  | _ => none

end Binary64

end DynTypes
