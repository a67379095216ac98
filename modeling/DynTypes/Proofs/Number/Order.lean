import DynTypes.Number.Binary64
import Mathlib.Algebra.Order.Field.Power
import Mathlib.Algebra.Order.Field.Rat
import Mathlib.Data.Rat.Cast.Order
import Mathlib.Tactic.Linarith
import Mathlib.Tactic.Positivity
import Mathlib.Tactic.Ring
/-!
# What a floating-point number denotes

A finite number denotes a rational, and finite numbers are ordered as the rationals that they
denote.
-/

namespace DynTypes.Binary64

/-- The mantissa with its sign. -/
def signed (negative : Bool) (mantissa : Nat) : Int :=
  if negative then -mantissa else mantissa

/-- The rational that a finite number denotes. -/
def toRat? : Binary64 → Option ℚ
  | finite negative mantissa exponent .. => some (signed negative mantissa * 2 ^ exponent)
  | _ => none

theorem abs_signed (negative : Bool) (mantissa : Nat) : |signed negative mantissa| = mantissa := by
  cases negative <;> simp [signed]

theorem signedAt_eq {base exponent : Int} (hbase : base ≤ exponent) (negative : Bool)
    (mantissa : Nat) :
    (signedAt base negative mantissa exponent : ℚ) =
      signed negative mantissa * 2 ^ exponent * 2 ^ (-base) := by
  have hpow : (2 : ℚ) ^ (exponent - base).toNat = 2 ^ exponent * 2 ^ (-base) := by
    rw [← zpow_natCast, Int.toNat_of_nonneg (by omega), ← zpow_add₀ two_ne_zero, Int.sub_eq_add_neg]
  rw [mul_assoc, ← hpow]
  cases negative <;> simp [signedAt, signed]

theorem compare_eq_cmp {x y : Binary64} {p q : ℚ} (hx : x.toRat? = some p)
    (hy : y.toRat? = some q) : x.compare y = some (cmp p q) := by
  cases x with
  | nan | infinity => contradiction
  | finite s m e =>
    cases y with
    | nan | infinity => contradiction
    | finite t n f =>
      obtain rfl := Option.some.inj hx
      obtain rfl := Option.some.inj hy
      have hcast : StrictMono ((↑) : Int → ℚ) := Int.cast_strictMono
      have hpos : (0 : ℚ) < 2 ^ (-min e f) := by positivity
      rw [compare, ← cmp_eq_compare, ← hcast.cmp_map_eq, signedAt_eq (min_le_left e f),
        signedAt_eq (min_le_right e f), cmp_mul_pos_right hpos]

/-- Integers of up to 53 bits are denoted exactly. -/
theorem exists_toRat?_of_natAbs_le {n : Int} (h : n.natAbs ≤ 2 ^ 53) :
    ∃ x : Binary64, x.toRat? = some (n : ℚ) := by
  have hsigned : signed (n < 0) n.natAbs = n := by
    simp only [signed, decide_eq_true_eq]
    omega
  by_cases hlt : n.natAbs < Nat.pow 2 53
  · refine ⟨.finite (n < 0) n.natAbs 0 hlt (by decide), ?_⟩
    rw [toRat?, hsigned, zpow_zero, mul_one]
  · have habs : n.natAbs = 2 ^ 52 * 2 := le_antisymm h (not_lt.1 hlt)
    refine ⟨.finite (n < 0) (2 ^ 52) 1 (by decide) (by decide), ?_⟩
    have hhalf : signed (n < 0) (2 ^ 52) * 2 = n := by
      rw [← hsigned]
      simp only [signed, decide_eq_true_eq]
      omega
    rw [toRat?, zpow_one]
    exact_mod_cast congrArg (fun m : Int => some (m : ℚ)) hhalf

end DynTypes.Binary64
