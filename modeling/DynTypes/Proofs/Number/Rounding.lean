import DynTypes.Proofs.Number.Order
/-!
# Rounding integers

An integer is rounded to the nearest floating-point number, and half way between two of them to the
one whose mantissa is even. Whatever is above or below an integer without being the number that it
is rounded to is above or below that number too.
-/

namespace DynTypes.Binary64

/-! ## Rounded quotients -/

theorem roundDiv_cases (num den : Nat) :
    (2 * (num % den) < den ∧ roundDiv num den = num / den) ∨
    (den < 2 * (num % den) ∧ roundDiv num den = num / den + 1) ∨
    (2 * (num % den) = den ∧ Even (roundDiv num den) ∧
      (roundDiv num den = num / den ∨ roundDiv num den = num / den + 1)) := by
  unfold roundDiv
  dsimp only
  split
  · next hlow => exact .inl ⟨hlow, rfl⟩
  · split
    · next hhigh => exact .inr (.inl ⟨hhigh, rfl⟩)
    · refine .inr (.inr ⟨by omega, ?_, by omega⟩)
      rw [Nat.even_iff]
      omega

/-- The rounded quotient is off by half a unit at most, and by that much only if it is even. -/
theorem roundDiv_spec (num : Nat) {den : Nat} (hden : 0 < den) :
    2 * |(num : Int) - roundDiv num den * den| ≤ den ∧
      (2 * |(num : Int) - roundDiv num den * den| = den → Even (roundDiv num den)) := by
  have hlt : num % den < den := Nat.mod_lt num hden
  have hsplit : (num : Int) = num / den * den + num % den := by
    exact_mod_cast (Nat.div_add_mod' num den).symm
  -- the quotient is rounded down or up; either way the error is known
  have hdown (h : roundDiv num den = num / den) :
      |(num : Int) - roundDiv num den * den| = num % den := by
    have hdiff : (num : Int) - roundDiv num den * den = num % den := by
      rw [h, Int.natCast_ediv]
      linarith
    rw [hdiff]
    exact abs_of_nonneg (by omega)
  have hup (h : roundDiv num den = num / den + 1) :
      |(num : Int) - roundDiv num den * den| = den - num % den := by
    have hdiff : (num : Int) - roundDiv num den * den = -(den - num % den) := by
      rw [h, Nat.cast_add_one, Int.natCast_ediv]
      linarith
    rw [hdiff, abs_neg]
    exact abs_of_nonneg (by omega)
  rcases roundDiv_cases num den with ⟨hlow, h⟩ | ⟨hhigh, h⟩ | ⟨htie, heven, h | h⟩
  · have := hdown h
    omega
  · have := hup h
    omega
  · have := hdown h
    exact ⟨by omega, fun _ => heven⟩
  · have := hup h
    exact ⟨by omega, fun _ => heven⟩

/-- No integer is nearer to the quotient than the rounded one, and one that is as near differs only
if the rounded one is even. -/
theorem roundDiv_nearest (num : Nat) {den : Nat} (hden : 0 < den) (other : Int) :
    |(num : Int) - roundDiv num den * den| ≤ |(num : Int) - other * den| ∧
      (|(num : Int) - other * den| = |(num : Int) - roundDiv num den * den| →
        other = roundDiv num den ∨ Even (roundDiv num den)) := by
  obtain ⟨hle, heven⟩ := roundDiv_spec num hden
  by_cases heq : other = roundDiv num den
  · rw [heq]
    exact ⟨le_rfl, fun _ => .inl rfl⟩
  · -- two different multiples are a unit apart
    have hapart : (den : Int) ≤ |((roundDiv num den : Int) - other) * den| := by
      rw [abs_mul, Nat.abs_cast]
      have hone : 1 ≤ |(roundDiv num den : Int) - other| := Int.one_le_abs (by omega)
      exact le_mul_of_one_le_left (by omega) hone
    have htriangle : |((roundDiv num den : Int) - other) * den| ≤
        |(num : Int) - other * den| + |(num : Int) - roundDiv num den * den| := by
      have hsub : ((roundDiv num den : Int) - other) * den =
          ((num : Int) - other * den) - ((num : Int) - roundDiv num den * den) := by ring
      rw [hsub]
      exact abs_sub _ _
    refine ⟨by omega, fun htie => .inr (heven ?_)⟩
    omega

/-- A number that is not below all numbers with a full mantissa is a multiple of their spacing. -/
theorem exists_eq_mul {y : Binary64} {s : ℚ} (hy : y.toRat? = some s) {k : Int}
    (h : 2 ^ (52 + k) ≤ |s|) : ∃ j : Int, s = j * 2 ^ k := by
  cases y with
  | nan | infinity => contradiction
  | finite negative mantissa exponent mantissa_lt =>
    obtain rfl := Option.some.inj hy
    have hmantissa : (mantissa : ℚ) < 2 ^ (53 : Int) := by exact_mod_cast mantissa_lt
    have hpow : (0 : ℚ) < 2 ^ exponent := by positivity
    have hlt : (2 : ℚ) ^ (52 + k) < 2 ^ (53 + exponent) := by
      calc
        (2 : ℚ) ^ (52 + k) ≤ mantissa * 2 ^ exponent := by
          rwa [abs_mul, ← Int.cast_abs, abs_signed, abs_of_pos hpow, Int.cast_natCast] at h
        _ < 2 ^ (53 : Int) * 2 ^ exponent := mul_lt_mul_of_pos_right hmantissa hpow
        _ = 2 ^ (53 + exponent) := (zpow_add₀ two_ne_zero _ _).symm
    have hexponent : 52 + k < 53 + exponent := (zpow_lt_zpow_iff_right₀ one_lt_two).1 hlt
    refine ⟨signed negative mantissa * 2 ^ (exponent - k).toNat, ?_⟩
    have hscale : (2 : ℚ) ^ exponent = 2 ^ (exponent - k).toNat * 2 ^ k := by
      rw [← zpow_natCast, Int.toNat_of_nonneg (by omega), ← zpow_add₀ two_ne_zero, sub_add_cancel]
    push_cast
    rw [hscale, mul_assoc]

/-- The rounded quotient is nearest also among numbers that are multiples of the unit from a lower
multiple on, and arbitrary below it. -/
theorem roundDiv_nearest_above {num den low : Nat} {c s : ℚ} (hc : 0 < c) (hden : 0 < den)
    (hlow : low * den ≤ num) (hs : low * (den * c) ≤ s → ∃ j : Int, s = j * (den * c)) :
    |num * c - roundDiv num den * (den * c)| ≤ |num * c - s| ∧
      (|num * c - s| = |num * c - roundDiv num den * (den * c)| →
        s = roundDiv num den * (den * c) ∨ Even (roundDiv num den)) := by
  have hscale (j : Int) : |num * c - j * (den * c)| = (|(num : Int) - j * den| : Int) * c := by
    have hfactor : num * c - j * (den * c) = ((num : Int) - j * den : Int) * c := by
      push_cast
      ring
    rw [hfactor, abs_mul, abs_of_pos hc, Int.cast_abs]
  have hround : |num * c - roundDiv num den * (den * c)| =
      (|(num : Int) - roundDiv num den * den| : Int) * c := by
    exact_mod_cast hscale (roundDiv num den)
  have hnearest (j : Int) :
      |num * c - roundDiv num den * (den * c)| ≤ |num * c - j * (den * c)| := by
    rw [hround, hscale j]
    exact mul_le_mul_of_nonneg_right (Int.cast_le.2 (roundDiv_nearest num hden j).1) hc.le
  by_cases hgrid : low * (den * c) ≤ s
  · obtain ⟨j, rfl⟩ := hs hgrid
    refine ⟨hnearest j, fun htie => ?_⟩
    rw [hround, hscale j] at htie
    have hties := Int.cast_injective (mul_right_cancel₀ hc.ne' htie)
    rcases (roundDiv_nearest num hden j).2 hties with rfl | heven
    · exact .inl (by rw [Int.cast_natCast])
    · exact .inr heven
  · -- below the lower multiple everything is farther away than that multiple
    have hlower : (low : ℚ) * (den * c) ≤ num * c := by
      rw [← mul_assoc]
      exact mul_le_mul_of_nonneg_right (by exact_mod_cast hlow) hc.le
    have hstrict : |num * c - roundDiv num den * (den * c)| < |num * c - s| := by
      calc
        |num * c - roundDiv num den * (den * c)| ≤ |num * c - (low : Int) * (den * c)| :=
          hnearest low
        _ = num * c - low * (den * c) := by
          rw [Int.cast_natCast]
          exact abs_of_nonneg (sub_nonneg.2 hlower)
        _ < num * c - s := sub_lt_sub_left (not_le.1 hgrid) _
        _ ≤ |num * c - s| := le_abs_self _
    exact ⟨hstrict.le, fun htie => absurd htie hstrict.ne'⟩

/-! ## Integers -/

theorem log2_lt_of_lt {n bits : Nat} (hbits : 0 < bits) (h : n < 2 ^ bits) : n.log2 < bits := by
  by_cases hn : n = 0
  · rw [hn, Nat.log2_zero]
    exact hbits
  · exact (Nat.log2_lt hn).2 h

theorem pow_mul_le_lt {n : Nat} (hn : n ≠ 0) (bits : Nat) {k : Int} (hk : bits + k = n.log2) :
    2 ^ bits * 2 ^ k.toNat ≤ n * 2 ^ (-k).toNat ∧
      n * 2 ^ (-k).toNat < 2 ^ (bits + 1) * 2 ^ k.toNat := by
  have hpow : 2 ^ bits * 2 ^ k.toNat = 2 ^ n.log2 * 2 ^ (-k).toNat := by
    rw [← Nat.pow_add, ← Nat.pow_add]
    congr 1
    omega
  have hlt : n < 2 ^ n.log2 * 2 := by
    rw [← Nat.pow_succ]
    exact Nat.lt_log2_self
  constructor
  · rw [hpow]
    exact Nat.mul_le_mul_right _ (Nat.log2_self_le hn)
  · calc
      n * 2 ^ (-k).toNat < 2 ^ n.log2 * 2 * 2 ^ (-k).toNat :=
        Nat.mul_lt_mul_of_pos_right hlt (by positivity)
      _ = 2 ^ n.log2 * 2 ^ (-k).toNat * 2 := by ring
      _ = 2 ^ bits * 2 ^ k.toNat * 2 := by rw [hpow]
      _ = 2 ^ (bits + 1) * 2 ^ k.toNat := by ring

/-- The exponent of the numbers around a natural number, if they have a full mantissa. -/
def spacing (n : Nat) : Int := n.log2 - 52

/-- The mantissa that a natural number is rounded to, before it is found to be too long. -/
def roundedMantissa (n : Nat) : Nat :=
  roundDiv (n * 2 ^ (-spacing n).toNat) (2 ^ (spacing n).toNat)

theorem roundedMantissa_bounds {n : Nat} (hn : n ≠ 0) :
    2 ^ 52 ≤ roundedMantissa n ∧ roundedMantissa n ≤ 2 ^ 53 := by
  have hden : 0 < 2 ^ (spacing n).toNat := by positivity
  obtain ⟨hlow, hhigh⟩ := pow_mul_le_lt hn 52 (k := spacing n) (by simp [spacing])
  rw [← Nat.le_div_iff_mul_le hden] at hlow
  rw [← Nat.div_lt_iff_lt_mul hden] at hhigh
  unfold roundedMantissa
  have hcases := roundDiv_cases (n * 2 ^ (-spacing n).toNat) (2 ^ (spacing n).toNat)
  omega

theorem ofRatio_one {n : Nat} (hn : n ≠ 0) (hlog : n.log2 < 1023) (negative : Bool) :
    ∃ mantissa exponent mantissa_lt exponent_mem,
      ofRatio negative n 1 = .finite negative mantissa exponent mantissa_lt exponent_mem ∧
        (mantissa = roundedMantissa n ∧ exponent = spacing n ∨
          roundedMantissa n = 2 ^ 53 ∧ mantissa = 2 ^ 52 ∧ exponent = spacing n + 1) := by
  have hlow : max ((n.log2 : Int) - Nat.log2 1 - 53) (-1074) = spacing n - 1 := by
    have hone : Nat.log2 1 = 0 := by decide
    unfold spacing
    omega
  have hfull : ¬ n * Nat.pow 2 (-(spacing n - 1)).toNat / Nat.pow 2 (spacing n - 1).toNat <
      Nat.pow 2 53 := by
    have hle := (pow_mul_le_lt hn 53 (k := spacing n - 1) (by unfold spacing; omega)).1
    exact Nat.not_lt.2 ((Nat.le_div_iff_mul_le (Nat.two_pow_pos _)).2 hle)
  have hrounded : roundDiv (n * Nat.pow 2 (-spacing n).toNat) (Nat.pow 2 (spacing n).toNat) =
      roundedMantissa n := rfl
  have hexponent : -1074 ≤ spacing n ∧ spacing n + 1 ≤ 971 := by
    unfold spacing
    omega
  -- the first guess at the exponent leaves one bit too many, so it is raised by one
  unfold ofRatio
  rw [if_neg hn]
  dsimp only [scaled]
  rw [hlow, Nat.one_mul, Nat.one_mul, if_neg hfull, Int.sub_add_cancel, hrounded]
  by_cases hcarry : roundedMantissa n = Nat.pow 2 53
  · simp only [if_pos hcarry]
    have hmem : Nat.pow 2 52 < Nat.pow 2 53 ∧ -1074 ≤ spacing n + 1 ∧ spacing n + 1 ≤ 971 :=
      ⟨by decide, by omega⟩
    exact ⟨_, _, hmem.1, hmem.2, dif_pos hmem, .inr ⟨hcarry, rfl, rfl⟩⟩
  · simp only [if_neg hcarry]
    have hmem : roundedMantissa n < Nat.pow 2 53 ∧ -1074 ≤ spacing n ∧ spacing n ≤ 971 :=
      ⟨lt_of_le_of_ne (roundedMantissa_bounds hn).2 hcarry, by omega⟩
    exact ⟨_, _, hmem.1, hmem.2, dif_pos hmem, .inl ⟨rfl, rfl⟩⟩

/-! ## The nearest number -/

/-- The mantissa is even, of a number that is written with as many bits as fit. -/
def HasEvenMantissa : Binary64 → Prop
  | finite _ mantissa exponent .. => Even mantissa ∧ (2 ^ 52 ≤ mantissa ∨ exponent = -1074)
  | _ => False

/-- The number denotes `r`, and no number denotes a rational that is nearer to `q`; another one that
is as near leaves the even mantissa to this one. -/
structure IsNearest (q : ℚ) (x : Binary64) (r : ℚ) : Prop where
  toRat?_eq : x.toRat? = some r
  abs_le : ∀ {y : Binary64} {s : ℚ}, y.toRat? = some s → |q - r| ≤ |q - s|
  even : ∀ {y : Binary64} {s : ℚ}, y.toRat? = some s → |q - s| = |q - r| →
    s = r ∨ x.HasEvenMantissa

variable {q r s : ℚ} {x y : Binary64}

theorem toRat?_neg (x : Binary64) : x.neg.toRat? = x.toRat?.map (-·) := by
  cases x with
  | nan | infinity => rfl
  | finite negative mantissa exponent =>
    cases negative <;> simp [neg, toRat?, signed]

theorem HasEvenMantissa.neg (h : x.HasEvenMantissa) : x.neg.HasEvenMantissa := by
  cases x with
  | nan | infinity => contradiction
  | finite => exact h

theorem abs_neg_sub (q s : ℚ) : |-q - s| = |q - -s| := by
  rw [← abs_neg, neg_sub, sub_neg_eq_add, sub_neg_eq_add, add_comm]

/-- Rounding does not depend on the sign. -/
theorem IsNearest.neg (h : IsNearest q x r) : IsNearest (-q) x.neg (-r) where
  toRat?_eq := by rw [toRat?_neg, h.toRat?_eq, Option.map_some]
  abs_le {y s} hy := by
    have hneg : y.neg.toRat? = some (-s) := by rw [toRat?_neg, hy, Option.map_some]
    rw [abs_neg_sub, abs_neg_sub, neg_neg]
    exact h.abs_le hneg
  even {y s} hy htie := by
    have hneg : y.neg.toRat? = some (-s) := by rw [toRat?_neg, hy, Option.map_some]
    rw [abs_neg_sub, abs_neg_sub, neg_neg] at htie
    rcases h.even hneg htie with heq | heven
    · exact .inl (neg_eq_iff_eq_neg.1 heq)
    · exact .inr heven.neg

theorem ofRatio_not (negative : Bool) (num den : Nat) :
    ofRatio (!negative) num den = (ofRatio negative num den).neg := by
  unfold ofRatio
  split
  · rfl
  · dsimp only
    rw [apply_dite Binary64.neg]
    rfl

/-- The unit of the mantissa that a natural number is rounded to, from the numerator and the
denominator that are divided. -/
theorem exists_unit (n : Nat) :
    ∃ c : ℚ, 0 < c ∧ ((n * 2 ^ (-spacing n).toNat : Nat) : ℚ) * c = n ∧
      ((2 ^ (spacing n).toNat : Nat) : ℚ) * c = 2 ^ spacing n := by
  refine ⟨2 ^ (-((-spacing n).toNat : Int)), by positivity, ?_, ?_⟩
  · push_cast
    rw [mul_assoc, zpow_neg, zpow_natCast, mul_inv_cancel₀ (by positivity), mul_one]
  · push_cast
    rw [← zpow_natCast, ← zpow_add₀ two_ne_zero]
    congr 1
    omega

theorem toRat?_ofRatio_one {n : Nat} (hn : n ≠ 0) (hlog : n.log2 < 1023) :
    (ofRatio false n 1).toRat? = some ((roundedMantissa n : ℚ) * 2 ^ spacing n) ∧
      (Even (roundedMantissa n) → (ofRatio false n 1).HasEvenMantissa) := by
  obtain ⟨mantissa, exponent, mantissa_lt, exponent_mem, hof, hmantissa⟩ :=
    ofRatio_one hn hlog false
  rw [hof]
  rcases hmantissa with ⟨rfl, rfl⟩ | ⟨hcarry, rfl, rfl⟩
  · exact ⟨rfl, fun heven => ⟨heven, .inl (roundedMantissa_bounds hn).1⟩⟩
  · refine ⟨?_, fun _ => ⟨by decide, .inl le_rfl⟩⟩
    rw [hcarry, toRat?, signed, zpow_add₀ two_ne_zero]
    norm_num
    ring

theorem isNearest_ofRatio {n : Nat} (hlog : n.log2 < 1023) :
    ∃ r, IsNearest n (ofRatio false n 1) r := by
  by_cases hn : n = 0
  · subst hn
    have hzero : (ofRatio false 0 1).toRat? = some 0 := by
      simp [ofRatio, zero, toRat?, signed]
    refine ⟨0, hzero, fun _ => ?_, fun _ htie => .inl ?_⟩
    · rw [Nat.cast_zero, sub_zero, abs_zero]
      exact abs_nonneg _
    · simpa using htie
  · obtain ⟨c, hc, hnum, hden⟩ := exists_unit n
    obtain ⟨hvalue, heven⟩ := toRat?_ofRatio_one hn hlog
    have hlow := (pow_mul_le_lt hn 52 (k := spacing n) (by simp [spacing])).1
    have hnearest {y : Binary64} {s : ℚ} (hy : y.toRat? = some s) :
        |(n : ℚ) - roundedMantissa n * 2 ^ spacing n| ≤ |(n : ℚ) - s| ∧
          (|(n : ℚ) - s| = |(n : ℚ) - roundedMantissa n * 2 ^ spacing n| →
            s = roundedMantissa n * 2 ^ spacing n ∨ Even (roundedMantissa n)) := by
      -- from the least number with a full mantissa on, all numbers are multiples of the unit
      have hgrid (hle : ((2 ^ 52 : Nat) : ℚ) * ((2 ^ (spacing n).toNat : Nat) * c) ≤ s) :
          ∃ j : Int, s = j * ((2 ^ (spacing n).toNat : Nat) * c) := by
        rw [hden] at hle ⊢
        refine exists_eq_mul hy (le_trans ?_ (le_abs_self s))
        rw [zpow_add₀ two_ne_zero]
        exact_mod_cast hle
      have := roundDiv_nearest_above hc (Nat.two_pow_pos _) hlow hgrid
      rwa [hnum, hden] at this
    refine ⟨_, hvalue, fun hy => (hnearest hy).1, fun hy htie => ?_⟩
    exact ((hnearest hy).2 htie).imp_right heven

theorem isNearest_ofInt {n : Int} (hlog : n.natAbs.log2 < 1023) :
    ∃ r, IsNearest n (ofInt n) r := by
  obtain ⟨r, h⟩ := isNearest_ofRatio hlog
  by_cases hn : n < 0
  · have hof : ofInt n = (ofRatio false n.natAbs 1).neg := by
      rw [← ofRatio_not, ofInt, decide_eq_true hn, Bool.not_false]
    have hcast : (n : ℚ) = -(n.natAbs : ℚ) := by
      rw [Nat.cast_natAbs, abs_of_neg hn, Int.cast_neg, neg_neg]
    rw [hof, hcast]
    exact ⟨-r, h.neg⟩
  · have hof : ofInt n = ofRatio false n.natAbs 1 := by
      rw [ofInt, decide_eq_false hn]
    have hcast : (n : ℚ) = n.natAbs := by
      rw [Nat.cast_natAbs, abs_of_nonneg (not_lt.1 hn)]
    rw [hof, hcast]
    exact ⟨r, h⟩

example : ofInt (2 ^ 53 + 1) = ofInt (2 ^ 53) := by decide +kernel

example : ofInt (2 ^ 53 + 3) = ofInt (2 ^ 53 + 4) := by decide +kernel

/-- A number lies above the nearest number if it lies above the rational that is rounded, or is the
nearest number itself. -/
theorem IsNearest.le_iff (h : IsNearest q x r) (hy : y.toRat? = some s) :
    r ≤ s ↔ q ≤ s ∨ s = r := by
  constructor
  · intro hle
    by_contra! hnot
    obtain ⟨hsq, hne⟩ := hnot
    have hlt : r < s := lt_of_le_of_ne hle hne.symm
    have habs := h.abs_le hy
    rw [abs_of_pos (by linarith), abs_of_pos (by linarith)] at habs
    linarith
  · rintro (hqs | rfl)
    · by_contra! hlt
      have habs := h.abs_le hy
      rw [abs_of_neg (by linarith), abs_of_nonpos (by linarith)] at habs
      linarith
    · exact le_rfl

theorem IsNearest.ge_iff (h : IsNearest q x r) (hy : y.toRat? = some s) :
    s ≤ r ↔ s ≤ q ∨ s = r := by
  have hneg : y.neg.toRat? = some (-s) := by rw [toRat?_neg, hy, Option.map_some]
  simpa only [neg_le_neg_iff, neg_inj] using h.neg.le_iff hneg

/-- What a number denotes exactly is rounded to itself. -/
theorem IsNearest.eq_of_exact (h : IsNearest q x r) (hy : y.toRat? = some q) : r = q := by
  have habs := h.abs_le hy
  rw [sub_self, abs_zero, abs_nonpos_iff] at habs
  linarith

theorem toRat?_ofInt {n : Int} (h : n.natAbs ≤ 2 ^ 53) : (ofInt n).toRat? = some (n : ℚ) := by
  have hlog : n.natAbs.log2 < 54 := log2_lt_of_lt (by omega) (by omega)
  obtain ⟨r, hr⟩ := isNearest_ofInt (n := n) (by omega)
  obtain ⟨y, hy⟩ := exists_toRat?_of_natAbs_le h
  rw [hr.toRat?_eq, hr.eq_of_exact hy]

end DynTypes.Binary64
