import Mathlib
import LoopCalc.Number.Shortest
import LoopCalc.Proofs.Number.Rounding

/-! Decimals are rounded once. The number nearest to a decimal depends on its value alone, so the
guards for exponents far out and the two ways to form the quotient make no difference. The shortest
decimal of a magnitude is one that is rounded to it.
-/

namespace LoopCalc

-----------------------------------------------------------------------------------------
-- How far the scales reach
-----------------------------------------------------------------------------------------

namespace Number

/-- There are units in the number one. -/
theorem cast_unitsPerOne_pos : (0 : ℚ) < unitsPerOne :=
  Nat.cast_pos.2 unitsPerOne_pos

/-- A power of ten is the same among naturals and rationals. -/
theorem cast_tenPow (n : Nat) : ((Nat.pow 10 n : Nat) : ℚ) = 10 ^ (n : ℤ) := by
  rw [Nat.pow_eq, zpow_natCast, Nat.cast_pow]
  rfl

/-- The points of the finest grid up to one, as a rational. -/
theorem cast_pointsPerOne : (pointsPerOne : ℚ) = 10 ^ (324 : ℤ) := by
  have hcast : (324 : ℤ) = ((324 : Nat) : ℤ) := rfl
  rw [hcast]
  unfold pointsPerOne
  generalize 324 = n
  exact cast_tenPow n

/-- Half a unit is more than a point of the finest grid. -/
theorem units_lt_points : 2 * unitsPerOne < pointsPerOne := by
  decide +kernel

/-- The first magnitude that is not finite stands for less than `10 ^ 309`. -/
theorem units_magnitudeCount_le
    : units magnitudeCount * Nat.pow 10 15 ≤ pointsPerOne * unitsPerOne := by
  decide +kernel

/-- A value of at most half a unit belongs to zero. -/
theorem nearest_zero {x : ℚ} (h0 : 0 ≤ x) (h : 2 * x ≤ 1) : Nearest x 0 := by
  have hone : units 1 = 1 := by decide
  refine ⟨?_, ?_, fun _ => rfl⟩
  · simpa using h0
  · simpa [hone] using h

/-- What is at least the first magnitude that is not finite belongs to none below it. -/
theorem Nearest.magnitudeCount_le {x : ℚ} {k : Nat} (h : Nearest x k)
    (hx : (units magnitudeCount : ℚ) ≤ x)
    : magnitudeCount ≤ k := by
  by_contra hlt
  have hk : units k < units magnitudeCount := strictMono_units (Nat.lt_of_not_le hlt)
  have hnext : units (k + 1) ≤ units magnitudeCount :=
    strictMono_units.monotone (Nat.lt_of_not_le hlt)
  have hsum : ((units k + units (k + 1) : Nat) : ℚ) < 2 * (units magnitudeCount : Nat) := by
    exact_mod_cast (by omega : units k + units (k + 1) < 2 * units magnitudeCount)
  linarith [h.upper]

end Number

-----------------------------------------------------------------------------------------
-- Reading decimals
-----------------------------------------------------------------------------------------

namespace Decimal

open Number (Nearest unitsPerOne pointsPerOne)

/-- The exact value of a decimal. -/
def value (d : Decimal) : ℚ :=
  d.coefficient * 10 ^ d.exponent

/-- Decimals have no sign of their own. -/
theorem value_nonneg (d : Decimal) : 0 ≤ d.value := by
  unfold value
  positivity

/-- The nearest magnitude is that of the value, in both ways to form the quotient. -/
theorem nearest_nearestMagnitude (d : Decimal)
    : Nearest (d.value * unitsPerOne) d.nearestMagnitude := by
  rw [nearestMagnitude, value]
  split
  · next hexp =>
    obtain ⟨power, hpower⟩ := Int.eq_ofNat_of_zero_le hexp
    have h := Number.nearest_roundUnits (d.coefficient * Nat.pow 10 power * unitsPerOne) Nat.one_pos
    rw [hpower, Int.toNat_natCast, ← Number.cast_tenPow]
    convert h using 1
    push_cast
    ring
  · next hexp =>
    obtain ⟨power, hpower⟩ := Int.eq_ofNat_of_zero_le (show 0 ≤ -d.exponent by omega)
    have hpos : 0 < Nat.pow 10 power := Nat.pow_pos (by decide)
    have h := Number.nearest_roundUnits (d.coefficient * unitsPerOne) hpos
    rw [hpower, Int.toNat_natCast, show d.exponent = -(power : ℤ) by omega, zpow_neg,
      ← Number.cast_tenPow]
    convert h using 1
    push_cast
    ring

/-- A tiny decimal is below half a unit. -/
theorem two_mul_value_le_of_isTiny {d : Decimal} (h : d.isTiny = true)
    : 2 * (d.value * unitsPerOne) ≤ 1 := by
  have hexp : d.exponent + d.coefficient.log2 + 1 ≤ -324 := of_decide_eq_true h
  have hcoefficient : (d.coefficient : ℚ) ≤ 10 ^ ((d.coefficient.log2 + 1 : Nat) : ℤ) := by
    have hbits : d.coefficient ≤ 10 ^ (d.coefficient.log2 + 1) :=
      Nat.lt_log2_self.le.trans (Nat.pow_le_pow_left (by decide) _)
    rw [zpow_natCast]
    exact_mod_cast hbits
  have hvalue : d.value * pointsPerOne ≤ 1 := by
    calc d.value * pointsPerOne
      _ ≤ 10 ^ ((d.coefficient.log2 + 1 : Nat) : ℤ) * 10 ^ d.exponent * 10 ^ (324 : ℤ) := by
            rw [Number.cast_pointsPerOne, value]
            gcongr
      _ = 10 ^ (((d.coefficient.log2 + 1 : Nat) : ℤ) + d.exponent + 324) := by
            rw [← zpow_add₀ (by norm_num), ← zpow_add₀ (by norm_num)]
      _ ≤ 1 := zpow_le_one_of_nonpos₀ (by norm_num) (by push_cast; omega)
  have hunits : (2 * unitsPerOne : ℚ) ≤ pointsPerOne := by
    exact_mod_cast Number.units_lt_points.le
  calc 2 * (d.value * unitsPerOne)
    _ = d.value * (2 * unitsPerOne) := by ring
    _ ≤ d.value * pointsPerOne := mul_le_mul_of_nonneg_left hunits d.value_nonneg
    _ ≤ 1 := hvalue

/-- A huge decimal is past all finite numbers. -/
theorem units_le_of_isHuge {d : Decimal} (h : d.isHuge = true)
    : (Number.units Number.magnitudeCount : ℚ) ≤ d.value * unitsPerOne := by
  obtain ⟨hne, hexp⟩ : d.coefficient ≠ 0 ∧ 309 ≤ d.exponent := of_decide_eq_true h
  have hone : (1 : ℚ) ≤ d.coefficient := by exact_mod_cast Nat.pos_of_ne_zero hne
  have hvalue : (pointsPerOne : ℚ) ≤ d.value * (Nat.pow 10 15 : Nat) := by
    rw [Number.cast_pointsPerOne, Number.cast_tenPow, value, mul_assoc,
      ← zpow_add₀ (by norm_num)]
    calc (10 : ℚ) ^ (324 : ℤ)
      _ ≤ 10 ^ (d.exponent + (15 : Nat)) := zpow_le_zpow_right₀ (by norm_num) (by omega)
      _ ≤ d.coefficient * 10 ^ (d.exponent + (15 : Nat)) :=
            le_mul_of_one_le_left (by positivity) hone
  have hunits : (Number.units Number.magnitudeCount : ℚ) * (Nat.pow 10 15 : Nat)
      ≤ pointsPerOne * unitsPerOne := by
    exact_mod_cast Number.units_magnitudeCount_le
  have hpos : (0 : ℚ) < (Nat.pow 10 15 : Nat) := by
    rw [Number.cast_tenPow]
    positivity
  refine le_of_mul_le_mul_right ?_ hpos
  calc (Number.units Number.magnitudeCount : ℚ) * (Nat.pow 10 15 : Nat)
    _ ≤ pointsPerOne * unitsPerOne := hunits
    _ ≤ d.value * (Nat.pow 10 15 : Nat) * unitsPerOne :=
          mul_le_mul_of_nonneg_right hvalue Number.cast_unitsPerOne_pos.le
    _ = d.value * unitsPerOne * (Nat.pow 10 15 : Nat) := by ring

end Decimal

namespace Number

/-- Reading a decimal rounds its value, also where the guards answer for it. -/
theorem ofDecimal_of_nearest (sign : Sign) {d : Decimal} {k : Nat}
    (h : Nearest (d.value * unitsPerOne) k)
    : ofDecimal sign d = ofMagnitude sign k := by
  rw [ofDecimal]
  split
  · next hsmall =>
    have hzero : Nearest (d.value * unitsPerOne) 0 := by
      rcases hsmall with hc | htiny
      · rw [Decimal.value, hc, Nat.cast_zero, zero_mul, zero_mul]
        exact nearest_zero le_rfl (by norm_num)
      · refine nearest_zero ?_ (Decimal.two_mul_value_le_of_isTiny htiny)
        exact mul_nonneg d.value_nonneg cast_unitsPerOne_pos.le
    rw [h.unique hzero]
    rfl
  split
  · next hhuge =>
    have hk := h.magnitudeCount_le (Decimal.units_le_of_isHuge hhuge)
    rw [ofMagnitude, dif_neg (Nat.not_lt.2 hk)]
  · rw [d.nearest_nearestMagnitude.unique h]

-----------------------------------------------------------------------------------------
-- The shortest decimal
-----------------------------------------------------------------------------------------

/-- There are points on the finest grid. -/
theorem cast_pointsPerOne_pos : (0 : ℚ) < pointsPerOne := by
  rw [cast_pointsPerOne]
  exact zpow_pos (by norm_num) _

/-- A point of a grid, in units. -/
theorem cast_gridPoint (coefficient level : Nat)
    : ((coefficient * gridStep level : Nat) : ℚ)
      = 2 * (Decimal.value ⟨coefficient, level + finestExponent⟩ * unitsPerOne) * pointsPerOne := by
  have hten : (10 : ℚ) ^ ((level : ℤ) + finestExponent) * pointsPerOne = 10 ^ (level : ℤ) := by
    rw [cast_pointsPerOne, ← zpow_add₀ (by norm_num)]
    congr 1
    exact Int.neg_add_cancel_right _ _
  rw [gridStep, Decimal.value, Nat.cast_mul, Nat.cast_mul, Nat.cast_mul, cast_tenPow, ← hten,
    Nat.cast_ofNat]
  ring

/-- The test for a point of a grid is that it is rounded to the magnitude. -/
theorem readsBack_iff {k coefficient level : Nat}
    : readsBack k (coefficient * gridStep level) = true
      ↔ Nearest (Decimal.value ⟨coefficient, level + finestExponent⟩ * unitsPerOne) k := by
  have hpoint := cast_gridPoint coefficient level
  generalize coefficient * gridStep level = x at hpoint ⊢
  generalize Decimal.value ⟨coefficient, level + finestExponent⟩ * unitsPerOne = y at hpoint ⊢
  have hle : ∀ a : Nat, a * pointsPerOne ≤ x ↔ (a : ℚ) ≤ 2 * y := by
    intro a
    rw [← @Nat.cast_le ℚ, hpoint, Nat.cast_mul,
      mul_le_mul_iff_of_pos_right cast_pointsPerOne_pos]
  have hge : ∀ a : Nat, x ≤ a * pointsPerOne ↔ 2 * y ≤ (a : ℚ) := by
    intro a
    rw [← @Nat.cast_le ℚ, hpoint, Nat.cast_mul,
      mul_le_mul_iff_of_pos_right cast_pointsPerOne_pos]
  rw [readsBack, lowerMidpoint, upperMidpoint]
  split
  · next heven =>
    rw [decide_eq_true_eq, hle, hge]
    exact ⟨fun h => ⟨h.1, h.2, fun _ => heven⟩, fun h => ⟨h.lower, h.upper⟩⟩
  · next hodd =>
    rw [decide_eq_true_eq, ← Nat.not_le, ← Nat.not_le, hle, hge, not_le, not_le]
    constructor
    · rintro ⟨hlower, hupper⟩
      refine ⟨hlower.le, hupper.le, ?_⟩
      rintro (h | h)
      · exact absurd h hlower.ne'
      · exact absurd h hupper.ne
    · intro h
      refine ⟨lt_of_le_of_ne h.lower ?_, lt_of_le_of_ne h.upper ?_⟩
      · exact fun he => hodd (h.even (Or.inl he.symm))
      · exact fun he => hodd (h.even (Or.inr he))

/-- A coefficient found on a grid is rounded to the magnitude. -/
theorem nearest_of_onGrid? {k level coefficient : Nat} (h : onGrid? k level = some coefficient)
    : Nearest (Decimal.value ⟨coefficient, level + finestExponent⟩ * unitsPerOne) k := by
  rw [← readsBack_iff]
  rw [onGrid?] at h
  split at h
  · next hbelow habove =>
    obtain rfl := Option.some.inj h
    split
    · exact hbelow
    · exact habove
  · next hbelow _ =>
    obtain rfl := Option.some.inj h
    exact hbelow
  · next _ habove =>
    obtain rfl := Option.some.inj h
    exact habove
  · cases h

/-- What lies strictly between the midpoints reads back. -/
theorem readsBack_of_between {k x : Nat} (hlower : lowerMidpoint k < x)
    (hupper : x < upperMidpoint k)
    : readsBack k x = true := by
  rw [readsBack]
  split
  · exact decide_eq_true ⟨hlower.le, hupper.le⟩
  · exact decide_eq_true ⟨hlower, hupper⟩

/-- The finest grid has a point right below each magnitude: its step is less than half a unit. -/
theorem exists_onGrid?_finest {k : Nat} (hk : 0 < k)
    : ∃ coefficient, onGrid? k 0 = some coefficient := by
  have hgrid : gridStep 0 = 2 * unitsPerOne := by
    unfold gridStep
    generalize 2 * unitsPerOne = n
    exact Nat.one_mul n
  have hstep : gridStep 0 < pointsPerOne := hgrid ▸ units_lt_points
  have hpos : 0 < gridStep 0 := hgrid ▸ Nat.mul_pos Nat.two_pos unitsPerOne_pos
  have hfloor : steps k / gridStep 0 * gridStep 0 ≤ steps k := Nat.div_mul_le_self _ _
  have hceil : steps k < steps k / gridStep 0 * gridStep 0 + gridStep 0 := by
    have := Nat.div_add_mod' (steps k) (gridStep 0)
    have := Nat.mod_lt (steps k) hpos
    omega
  have hlower : lowerMidpoint k + pointsPerOne ≤ steps k := by
    have hunits : units (k - 1) + units k + 1 ≤ 2 * units k := by
      have := strictMono_units (Nat.sub_lt hk Nat.one_pos)
      omega
    have := Nat.mul_le_mul_right pointsPerOne hunits
    rwa [Nat.succ_mul] at this
  have hupper : steps k < upperMidpoint k := by
    have := units_lt_succ k
    exact Nat.mul_lt_mul_of_pos_right (by omega) (by omega)
  have hback : readsBack k (steps k / gridStep 0 * gridStep 0) = true :=
    readsBack_of_between (by omega) (by omega)
  rw [onGrid?, hback]
  split
  · exact ⟨_, rfl⟩
  · exact ⟨_, rfl⟩
  · next h _ => cases h
  · next h _ => cases h

/-- The first grid that holds a decimal for the magnitude, by induction on the level. -/
theorem nearest_shortestFrom {k : Nat} (hk : 0 < k) (level : Nat)
    : Nearest ((shortestFrom k level).value * unitsPerOne) k := by
  induction level with
  | zero =>
      obtain ⟨coefficient, h⟩ := exists_onGrid?_finest hk
      have hnearest := nearest_of_onGrid? h
      rw [shortestFrom, h]
      rwa [Nat.cast_zero, zero_add] at hnearest
  | succ level ih =>
      rw [shortestFrom]
      split
      · next coefficient h =>
        have hnearest := nearest_of_onGrid? h
        rwa [Nat.cast_succ] at hnearest
      · exact ih

/-- The shortest decimal of a magnitude belongs to the magnitude, as all that read back do. -/
theorem nearest_shortest (k : Nat) : Nearest ((shortest k).value * unitsPerOne) k := by
  rw [shortest]
  split
  · next hk =>
    rw [hk, Decimal.value, Nat.cast_zero, zero_mul, zero_mul]
    exact nearest_zero le_rfl (by norm_num)
  · next hk => exact nearest_shortestFrom (Nat.pos_of_ne_zero hk) _

/-- Every decimal with the value of the shortest one reads back as the number. -/
theorem ofDecimal_of_value_eq (sign : Sign) (k : Fin magnitudeCount) {d : Decimal}
    (h : d.value = (shortest k).value)
    : ofDecimal sign d = finite sign k := by
  rw [ofDecimal_of_nearest sign (h ▸ nearest_shortest k), ofMagnitude, dif_pos k.isLt]

end Number

end LoopCalc
