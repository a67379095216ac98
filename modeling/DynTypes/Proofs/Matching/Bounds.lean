import DynTypes.Constraint.Accepts
import DynTypes.Proofs.Number.Rounding
import DynTypes.Regex.Builtin
import DynTypes.Value.View
/-!
# Bounds on numbers and sizes

A bound is compared with the number that a value is, or else with its size. Integers and sizes are
compared with the bound itself. For a floating-point number the bound is rounded to the nearest one
first, which makes a difference for one number only.
-/

namespace DynTypes

open Binary64 (IsNearest toRat?)

variable {V : Type} {view : View V} {v : V} {bound : Int64}

/-- Every bound has a nearest floating-point number. -/
theorem exists_isNearest (bound : Int64) :
    ∃ r, IsNearest bound.toInt (.ofInt bound.toInt) r := by
  apply Binary64.isNearest_ofInt
  have hlog : bound.toInt.natAbs.log2 < 64 := by
    have hlt := bound.toInt_lt
    have hge := bound.le_toInt
    exact Binary64.log2_lt_of_lt (by omega) (by omega)
  omega

section

variable [RegexEngine]

/-- The bound is taken for the number `edge`: values from there on are not too small, values up to
there are not too large. -/
structure Splits (view : View V) (v : V) (bound : Int64) (edge x : ℚ) : Prop where
  min_iff : Constraint.accepts view v (.min bound) = true ↔ edge ≤ x
  max_iff : Constraint.accepts view v (.max bound) = true ↔ x ≤ edge
  min_or_max : Constraint.accepts view v (.min bound) = true ∨
    Constraint.accepts view v (.max bound) = true
  min_and_max_iff : Constraint.accepts view v (.min bound) = true ∧
    Constraint.accepts view v (.max bound) = true ↔ x = edge

/-- Neither a smallest nor a greatest value lets the value pass. -/
def Excludes (view : View V) (v : V) (bound : Int64) : Prop :=
  Constraint.accepts view v (.min bound) = false ∧ Constraint.accepts view v (.max bound) = false

theorem Splits.of_iff {edge x : ℚ}
    (hmin : Constraint.accepts view v (.min bound) = true ↔ edge ≤ x)
    (hmax : Constraint.accepts view v (.max bound) = true ↔ x ≤ edge) :
    Splits view v bound edge x where
  min_iff := hmin
  max_iff := hmax
  min_or_max := by
    rw [hmin, hmax]
    exact le_total edge x
  min_and_max_iff := by
    rw [hmin, hmax, and_comm]
    exact le_antisymm_iff.symm

theorem Splits.of_compareMagnitude {edge x : ℚ}
    (h : compareMagnitude view v bound = some (cmp x edge)) : Splits view v bound edge x := by
  apply Splits.of_iff
  · rw [Constraint.accepts, h, Option.any_some, bne_iff_ne, ne_eq, cmp_eq_lt_iff, not_lt]
  · rw [Constraint.accepts, h, Option.any_some, bne_iff_ne, ne_eq, cmp_eq_gt_iff, not_lt]

theorem splits_of_int {n : Int64} (hnumber : view.number v = some (.int n)) :
    Splits view v bound bound.toInt n.toInt := by
  apply Splits.of_compareMagnitude
  have hcast : StrictMono ((↑) : Int → ℚ) := Int.cast_strictMono
  rw [compareMagnitude, hnumber, hcast.cmp_map_eq, cmp_eq_compare]
  rfl

theorem splits_of_size {size : Nat} (hnumber : view.number v = none)
    (hsize : view.size v = some size) : Splits view v bound bound.toInt size := by
  apply Splits.of_compareMagnitude
  have hcast : StrictMono ((↑) : Int → ℚ) := Int.cast_strictMono
  rw [compareMagnitude, hnumber, hsize, ← Int.cast_natCast, hcast.cmp_map_eq, cmp_eq_compare]
  rfl

theorem accepts_len_iff {size : Nat} (hsize : view.size v = some size) :
    Constraint.accepts view v (.len bound) = true ↔ (size : Int) = bound.toInt := by
  rw [Constraint.accepts, hsize, Option.any_some, beq_iff_eq, compareSize, compare_eq_iff_eq]

theorem splits_of_real {x : Binary64} {q r : ℚ} (hnumber : view.number v = some (.real x))
    (hx : x.toRat? = some q) (hr : (Binary64.ofInt bound.toInt).toRat? = some r) :
    Splits view v bound r q := by
  apply Splits.of_compareMagnitude
  rw [compareMagnitude, hnumber]
  exact Binary64.compare_eq_cmp hx hr

/-- Rounding the bound does not matter for any other number than the one it is rounded to. -/
theorem Splits.of_isNearest {x : Binary64} {q r : ℚ} (h : Splits view v bound r q)
    (hr : IsNearest bound.toInt (.ofInt bound.toInt) r) (hx : x.toRat? = some q)
    (hq : q = r → r = bound.toInt) : Splits view v bound bound.toInt q := by
  by_cases hqr : q = r
  · rwa [hq hqr] at h
  · apply Splits.of_iff
    · rw [h.min_iff, hr.le_iff hx, or_iff_left hqr]
    · rw [h.max_iff, hr.ge_iff hx, or_iff_left hqr]

theorem accepts_of_infinity {negative : Bool} {r : ℚ}
    (hnumber : view.number v = some (.real (.infinity negative)))
    (hr : (Binary64.ofInt bound.toInt).toRat? = some r) :
    Constraint.accepts view v (.min bound) = !negative ∧
      Constraint.accepts view v (.max bound) = negative := by
  have hcompare : compareMagnitude view v bound = some (if negative then .lt else .gt) := by
    rw [compareMagnitude, hnumber]
    show (Binary64.infinity negative).compare (.ofInt bound.toInt) = _
    cases hround : Binary64.ofInt bound.toInt with
    | nan | infinity =>
      rw [hround] at hr
      contradiction
    | finite => rfl
  cases negative <;> exact ⟨by rw [Constraint.accepts, hcompare]; rfl,
    by rw [Constraint.accepts, hcompare]; rfl⟩

theorem excludes_of_compareMagnitude (h : compareMagnitude view v bound = none) :
    Excludes view v bound := by
  constructor <;> rw [Constraint.accepts, h, Option.any_none]

/-- How a bound is compared with whatever a host shows of a value. -/
theorem bounds_split (view : View V) (v : V) (bound : Int64) :
    (∀ n : Int64, view.number v = some (.int n) → Splits view v bound bound.toInt n.toInt) ∧
    (∃ r : ℚ, IsNearest bound.toInt (.ofInt bound.toInt) r ∧
      (bound.toInt.natAbs ≤ 2 ^ 53 → r = bound.toInt) ∧
      ∀ (x : Binary64) (q : ℚ), view.number v = some (.real x) → x.toRat? = some q →
        Splits view v bound r q ∧
          ((q = r → r = bound.toInt) → Splits view v bound bound.toInt q)) ∧
    (∀ negative, view.number v = some (.real (.infinity negative)) →
      Constraint.accepts view v (.min bound) = !negative ∧
        Constraint.accepts view v (.max bound) = negative) ∧
    (view.number v = some (.real .nan) → Excludes view v bound) ∧
    (∀ size : Nat, view.number v = none → view.size v = some size →
      Splits view v bound bound.toInt size ∧
        (Constraint.accepts view v (.len bound) = true ↔ (size : Int) = bound.toInt)) ∧
    (view.number v = none → view.size v = none → Excludes view v bound) := by
  obtain ⟨r, hr⟩ := exists_isNearest bound
  refine ⟨fun n => splits_of_int, ⟨r, hr, ?_, ?_⟩, ?_, ?_, ?_, ?_⟩
  · intro hbits
    exact hr.eq_of_exact (Binary64.toRat?_ofInt hbits)
  · intro x q hnumber hx
    have hsplits := splits_of_real hnumber hx hr.toRat?_eq
    exact ⟨hsplits, hsplits.of_isNearest hr hx⟩
  · exact fun negative hnumber => accepts_of_infinity hnumber hr.toRat?_eq
  · intro hnumber
    apply excludes_of_compareMagnitude
    rw [compareMagnitude, hnumber]
    rfl
  · exact fun size hnumber hsize => ⟨splits_of_size hnumber hsize, accepts_len_iff hsize⟩
  · intro hnumber hsize
    apply excludes_of_compareMagnitude
    rw [compareMagnitude, hnumber, hsize]
    rfl

end

/-- A negative bound on an integer and on a size, a bound on the number that equals it, and bounds
on what has no order. -/
theorem bounds_split_values :
    Splits Value.view (.int 3) (-2) (-2) 3 ∧
    Splits Value.view (.float (.ofInt (2 ^ 53))) (2 ^ 53) (2 ^ 53) (2 ^ 53) ∧
    Excludes Value.view (.float .nan) 0 ∧
    (Splits Value.view (.str "abc") (-2) (-2) 3 ∧
      Constraint.accepts Value.view (.str "abc") (.len (-2)) = false) ∧
    Excludes Value.view .nil 0 := by
  have hx : toRat? (.ofInt (2 ^ 53)) = some ((2 ^ 53 : Int) : ℚ) :=
    Binary64.toRat?_ofInt (by decide)
  have hbound : (2 ^ 53 : Int64).toInt = 2 ^ 53 := by decide +kernel
  have hlen : ¬ ((3 : Nat) : Int) = (-2 : Int64).toInt := by decide
  obtain ⟨hint, -⟩ := bounds_split Value.view (.int 3) (-2)
  obtain ⟨-, ⟨r, -, hr, hreal⟩, -⟩ := bounds_split Value.view (.float (.ofInt (2 ^ 53))) (2 ^ 53)
  obtain ⟨-, -, -, hnan, -⟩ := bounds_split Value.view (.float .nan) 0
  obtain ⟨-, -, -, -, hsize, -⟩ := bounds_split Value.view (.str "abc") (-2)
  obtain ⟨-, -, -, -, -, hnone⟩ := bounds_split Value.view .nil 0
  rw [hbound] at hr hreal
  have hexact := (hreal _ _ rfl hx).2 fun _ => hr (by decide)
  have hsized := hsize 3 rfl rfl
  refine ⟨by exact_mod_cast hint 3 rfl, by exact_mod_cast hexact, hnan rfl, ⟨?_, ?_⟩,
    hnone rfl rfl⟩
  · exact_mod_cast hsized.1
  · exact Bool.eq_false_iff.2 fun haccepts => hlen (hsized.2.1 haccepts)

/-- The bound 2 ^ 53 + 1 lets 2 ^ 53 pass, which is smaller. -/
theorem not_splits_exactly :
    ¬ ∀ (v : Value) (bound : Int64) (x : Binary64) (q : ℚ), Value.view.number v = some (.real x) →
      x.toRat? = some q → Splits Value.view v bound bound.toInt q := by
  intro h
  have hx : toRat? (.ofInt (2 ^ 53)) = some ((2 ^ 53 : Int) : ℚ) :=
    Binary64.toRat?_ofInt (by decide)
  have haccepts : Constraint.accepts Value.view (.float (.ofInt (2 ^ 53)))
      (.min (2 ^ 53 + 1)) = true := by decide +kernel
  have hle := (h (.float (.ofInt (2 ^ 53))) (2 ^ 53 + 1) _ _ rfl hx).min_iff.1 haccepts
  have hlt : (2 ^ 53 : Int) < (2 ^ 53 + 1 : Int64).toInt := by decide +kernel
  exact absurd (Int.cast_le.1 hle) (not_le.2 hlt)

end DynTypes
