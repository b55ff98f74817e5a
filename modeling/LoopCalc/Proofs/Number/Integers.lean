import Mathlib
import LoopCalc.Proofs.Number.Rounding

/-! Integers among the numbers. Every integer up to `2 ^ 53` in absolute value is a number, so sums
in that range are exact, and numbers that are integers compare as integers do.
-/

namespace LoopCalc

namespace Sign

/-- A sign applies to a product as to its first factor. -/
theorem apply_mul (sign : Sign) (n d : Nat) : sign.apply (n * d) = sign.apply n * d := by
  cases sign with
  | plus => exact Int.natCast_mul n d
  | minus => rw [apply, apply, Int.natCast_mul, Int.neg_mul]

/-- A sign does not change the size of a number. -/
theorem natAbs_apply (sign : Sign) (n : Nat) : (sign.apply n).natAbs = n := by
  cases sign with
  | plus => exact Int.natAbs_natCast n
  | minus => exact (Int.natAbs_neg n).trans (Int.natAbs_natCast n)

/-- An integer is its size with its own sign. -/
theorem apply_ofInt (i : Int) : (ofInt i).apply i.natAbs = i := by
  rw [ofInt]
  split
  · rw [apply]
    omega
  · rw [apply]
    omega

end Sign

namespace Number

-----------------------------------------------------------------------------------------
-- Numbers that are integers
-----------------------------------------------------------------------------------------

/-- The integer that a number is; both zeros are the integer zero. -/
def toInt? : Number → Option Int
  | nan | infinite _ => none
  | finite sign k =>
      if units k % unitsPerOne = 0 then some (sign.apply (units k / unitsPerOne)) else none

/-- The units in one split into two powers of two. -/
theorem unitsPerOne_eq_mul {a b : Nat} (h : a + b = 1074) : unitsPerOne = 2 ^ a * 2 ^ b := by
  unfold unitsPerOne
  rw [← h]
  exact Nat.pow_add 2 a b

/-- A number is an integer if its value in units is that integer times the units in one. -/
theorem toInt?_finite_iff {sign : Sign} {k : Fin magnitudeCount} {i : Int}
    : (finite sign k).toInt? = some i ↔ sign.apply (units k) = i * unitsPerOne := by
  rw [toInt?]
  constructor
  · intro h
    split at h
    · next hmod =>
      obtain rfl := Option.some.inj h
      rw [← Sign.apply_mul, Nat.div_mul_cancel (Nat.dvd_of_mod_eq_zero hmod)]
    · cases h
  · intro h
    have hk : units k = i.natAbs * unitsPerOne := by
      rw [← sign.natAbs_apply (units k), h, Int.natAbs_mul, Int.natAbs_natCast]
    have hi : sign.apply i.natAbs = i := by
      rw [hk, Sign.apply_mul] at h
      exact Int.eq_of_mul_eq_mul_right (Int.natCast_ne_zero.2 unitsPerOne_pos.ne') h
    rw [if_pos (hk ▸ Nat.mul_mod_left _ _), hk, Nat.mul_div_cancel _ unitsPerOne_pos, hi]

/-- A number that is an integer has as many units as the integer has, and is finite. -/
theorem exists_finite_of_toInt? {x : Number} {i : Int} (h : x.toInt? = some i)
    : ∃ sign k, x = finite sign k ∧ sign.apply (units k) = i * unitsPerOne := by
  cases x with
  | nan => cases h
  | infinite sign => cases h
  | finite sign k => exact ⟨sign, k, rfl, toInt?_finite_iff.1 h⟩

/-- A number that is an integer is finite. -/
theorem isFinite_of_toInt? {x : Number} {i : Int} (h : x.toInt? = some i)
    : x.isFinite = true := by
  obtain ⟨sign, k, rfl, -⟩ := exists_finite_of_toInt? h
  rfl

/-- Both zeros are the integer zero. -/
theorem toInt?_zeroOf (sign : Sign) : (zeroOf sign).toInt? = some 0 := by
  refine toInt?_finite_iff.2 ?_
  rw [units_zero, Int.zero_mul]
  cases sign <;> rfl

-----------------------------------------------------------------------------------------
-- Comparison
-----------------------------------------------------------------------------------------

/-- The order of magnitudes is the order of their values, also across the signs. -/
theorem apply_le_apply_iff (s t : Sign) (j k : Nat)
    : s.apply j ≤ t.apply k ↔ s.apply (units j) ≤ t.apply (units k) := by
  have hle : units j ≤ units k ↔ j ≤ k := strictMono_units.le_iff_le
  have hge : units k ≤ units j ↔ k ≤ j := strictMono_units.le_iff_le
  have hj : units j ≤ units 0 ↔ j ≤ 0 := strictMono_units.le_iff_le
  have hk : units k ≤ units 0 ↔ k ≤ 0 := strictMono_units.le_iff_le
  rw [units_zero] at hj hk
  cases s <;> cases t <;> simp only [Sign.apply] <;> omega

/-- Magnitudes with signs are ordered like the integers that they are, as units grow with
magnitudes. -/
theorem apply_le_apply_iff_of_units {s t : Sign} {k l : Nat} {i j : Int}
    (hs : s.apply (units k) = i * unitsPerOne) (ht : t.apply (units l) = j * unitsPerOne)
    : s.apply k ≤ t.apply l ↔ i ≤ j := by
  rw [apply_le_apply_iff, hs, ht]
  exact Int.mul_le_mul_iff_of_pos_right (Int.natCast_pos.2 unitsPerOne_pos)

/-- Numbers that are integers are compared like them. -/
theorem le_of_toInt? {x y : Number} {i j : Int} (hx : x.toInt? = some i) (hy : y.toInt? = some j)
    : x.le y = decide (i ≤ j) := by
  obtain ⟨s, k, rfl, hs⟩ := exists_finite_of_toInt? hx
  obtain ⟨t, l, rfl, ht⟩ := exists_finite_of_toInt? hy
  exact decide_eq_decide.2 (apply_le_apply_iff_of_units hs ht)

/-- Numbers that are integers are strictly compared like them. -/
theorem lt_of_toInt? {x y : Number} {i j : Int} (hx : x.toInt? = some i) (hy : y.toInt? = some j)
    : x.lt y = decide (i < j) := by
  obtain ⟨s, k, rfl, hs⟩ := exists_finite_of_toInt? hx
  obtain ⟨t, l, rfl, ht⟩ := exists_finite_of_toInt? hy
  have hiff : s.apply k < t.apply l ↔ i < j := by
    rw [← Int.not_le, ← Int.not_le, apply_le_apply_iff_of_units ht hs]
  exact decide_eq_decide.2 hiff

-----------------------------------------------------------------------------------------
-- Addition
-----------------------------------------------------------------------------------------

/-- A positive natural number of at most 53 bits fills 53 bits after a shift. -/
theorem exists_shift {n : Nat} (hpos : 0 < n) (hle : n ≤ 2 * perExponent)
    : ∃ shift ≤ 52, n * 2 ^ shift ≤ 2 * perExponent ∧ perExponent ≤ n * 2 ^ shift := by
  rcases Nat.lt_or_ge n perExponent with hlt | hge
  · have hlog : n.log2 < 52 := (Nat.log2_lt hpos.ne').2 hlt
    have hfull : 2 ^ n.log2 * 2 ^ (52 - n.log2) = perExponent := by
      rw [← Nat.pow_add, Nat.add_sub_cancel' hlog.le]
    refine ⟨52 - n.log2, Nat.sub_le _ _, ?_, ?_⟩
    · calc n * 2 ^ (52 - n.log2)
          ≤ 2 ^ (n.log2 + 1) * 2 ^ (52 - n.log2) := Nat.mul_le_mul_right _ Nat.lt_log2_self.le
        _ = 2 * perExponent := by rw [Nat.pow_succ', Nat.mul_assoc, hfull]
    · exact hfull ▸ Nat.mul_le_mul_right _ (Nat.log2_self_le hpos.ne')
  · exact ⟨0, Nat.zero_le _, by omega, by omega⟩

/-- Every natural up to `2 ^ 53` has a magnitude, which is found by scaling it to the leading bit.
-/
theorem exists_units_eq {n : Nat} (h : n ≤ 2 * perExponent)
    : ∃ k < magnitudeCount, units k = n * unitsPerOne := by
  rcases Nat.eq_zero_or_pos n with rfl | hpos
  · exact ⟨0, by decide, by rw [units_zero, Nat.zero_mul]⟩
  obtain ⟨shift, hshift, hle, hge⟩ := exists_shift hpos h
  refine ⟨(1074 - shift) * perExponent + n * 2 ^ shift, ?_, ?_⟩
  · have hscale : (1074 - shift) * perExponent ≤ 1074 * perExponent :=
      Nat.mul_le_mul_right _ (Nat.sub_le _ _)
    have hcount : magnitudeCount = 2047 * perExponent := rfl
    have hper : 0 < perExponent := by decide
    omega
  · rw [units_stretch hle (Or.inr hge), Nat.mul_assoc,
      unitsPerOne_eq_mul (Nat.add_sub_of_le (by omega : shift ≤ 1074))]

/-- A sum of integers is exact as long as it stays within 53 bits. -/
theorem toInt?_add {x y : Number} {i j : Int} (hx : x.toInt? = some i) (hy : y.toInt? = some j)
    (hbound : (i + j).natAbs ≤ 2 * perExponent)
    : (x + y).toInt? = some (i + j) := by
  obtain ⟨s, k, rfl, hs⟩ := exists_finite_of_toInt? hx
  obtain ⟨t, l, rfl, ht⟩ := exists_finite_of_toInt? hy
  have hsum : s.apply (units k) + t.apply (units l) = (i + j) * unitsPerOne := by
    rw [hs, ht, Int.add_mul]
  change (addFinite s k t l).toInt? = _
  rw [addFinite]
  split
  · -- the sum is one of the two zeros, and which one does not matter here
    next hzero =>
    have hij : i + j = 0 := by
      rw [hsum] at hzero
      exact (Int.mul_eq_zero.1 hzero).resolve_right (Int.natCast_ne_zero.2 unitsPerOne_pos.ne')
    rw [hij]
    split
    · exact toInt?_zeroOf .minus
    · exact toInt?_zeroOf .plus
  · obtain ⟨m, hm, hunits⟩ := exists_units_eq hbound
    have habs : (s.apply (units k) + t.apply (units l)).natAbs = units m := by
      rw [hsum, Int.natAbs_mul, Int.natAbs_natCast, hunits]
    rw [habs, roundUnits_units, ofMagnitude, dif_pos hm]
    refine toInt?_finite_iff.2 ?_
    rw [← hsum, ← habs]
    exact Sign.apply_ofInt _

end Number

end LoopCalc
