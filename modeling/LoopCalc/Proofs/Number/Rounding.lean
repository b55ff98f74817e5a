import Mathlib
import LoopCalc.Number

/-! Rounding goes to the nearest magnitude. Magnitudes are evenly spaced on stretches of `2 ^ 52`,
and the spacing doubles from one stretch to the next. A value belongs to the magnitude whose
neighbours are further away; halfway between two, it belongs to the even one. That decides the
magnitude, and `roundUnits` finds it.
-/

namespace LoopCalc.Number

-----------------------------------------------------------------------------------------
-- The scale of magnitudes
-----------------------------------------------------------------------------------------

/-- There are units in the number one. -/
theorem unitsPerOne_pos : 0 < unitsPerOne := by
  unfold unitsPerOne
  generalize 1074 = n
  exact Nat.pow_pos Nat.two_pos

/-- In the lowest exponent, magnitudes are units. -/
theorem units_of_lt {k : Nat} (h : k < perExponent) : units k = k := by
  rw [units, Nat.div_eq_of_lt h, if_pos rfl, Nat.mod_eq_of_lt h]

/-- Above it there is a leading one, and the spacing is a power of two. -/
theorem units_of_exponent (scale fraction : Nat) (h : fraction < perExponent)
    : units ((scale + 1) * perExponent + fraction) = (perExponent + fraction) * 2 ^ scale := by
  have hdiv : ((scale + 1) * perExponent + fraction) / perExponent = scale + 1 := by
    rw [Nat.mul_comm, Nat.mul_add_div (by decide), Nat.div_eq_of_lt h, Nat.add_zero]
  have hmod : ((scale + 1) * perExponent + fraction) % perExponent = fraction := by
    rw [Nat.mul_comm, Nat.mul_add_mod, Nat.mod_eq_of_lt h]
  rw [units, hdiv, hmod, if_neg (Nat.succ_ne_zero scale), Nat.shiftLeft_eq, Nat.add_sub_cancel]

/-- On each stretch magnitudes count significands. The end of a stretch is the start of the next. -/
theorem units_stretch {scale significand : Nat} (hle : significand ≤ 2 * perExponent)
    (hs : scale = 0 ∨ perExponent ≤ significand)
    : units (scale * perExponent + significand) = significand * 2 ^ scale := by
  rcases Nat.lt_or_ge significand perExponent with hlt | hge
  · obtain rfl : scale = 0 := hs.resolve_right (Nat.not_le.2 hlt)
    rw [Nat.zero_mul, Nat.zero_add, units_of_lt hlt, Nat.pow_zero, Nat.mul_one]
  obtain ⟨fraction, rfl⟩ := Nat.exists_eq_add_of_le hge
  rcases Nat.lt_or_ge fraction perExponent with hlt | hfull
  · have h := units_of_exponent scale fraction hlt
    rwa [Nat.succ_mul, Nat.add_assoc] at h
  · obtain rfl : fraction = perExponent := by omega
    have h := units_of_exponent (scale + 1) 0 (by decide)
    rw [Nat.succ_mul, Nat.succ_mul, Nat.add_zero, Nat.add_zero, Nat.pow_succ] at h
    rw [← Nat.add_assoc, h]
    ring

/-- Every magnitude lies on a stretch, below its end. -/
theorem exists_stretch (k : Nat)
    : ∃ scale significand,
        k = scale * perExponent + significand
        ∧ significand < 2 * perExponent
        ∧ (scale = 0 ∨ perExponent ≤ significand) := by
  rcases Nat.lt_or_ge k perExponent with hlt | hge
  · exact ⟨0, k, by omega, by omega, Or.inl rfl⟩
  · obtain ⟨rest, rfl⟩ := Nat.exists_eq_add_of_le hge
    have hmod := Nat.mod_lt rest (show 0 < perExponent by decide)
    have hdiv := Nat.div_add_mod' rest perExponent
    exact ⟨rest / perExponent, perExponent + rest % perExponent, by omega, by omega,
      Or.inr (Nat.le_add_right _ _)⟩

/-- The next magnitude of a stretch is one spacing further. -/
theorem units_stretch_succ {scale significand : Nat} (hlt : significand < 2 * perExponent)
    (hs : scale = 0 ∨ perExponent ≤ significand)
    : units (scale * perExponent + significand + 1) = significand * 2 ^ scale + 2 ^ scale := by
  rw [Nat.add_assoc, units_stretch hlt (hs.imp_right Nat.le_succ_of_le), Nat.succ_mul]

/-- The magnitude before is one spacing less, within a stretch. -/
theorem units_stretch_pred {scale significand : Nat} (hle : significand ≤ 2 * perExponent)
    (hpos : 0 < significand) (hs : scale = 0 ∨ perExponent < significand)
    : units (scale * perExponent + significand - 1) + 2 ^ scale = significand * 2 ^ scale := by
  obtain ⟨before, rfl⟩ := Nat.exists_eq_succ_of_ne_zero hpos.ne'
  rw [Nat.add_succ_sub_one, units_stretch (Nat.le_of_succ_le hle) (hs.imp_right Nat.le_of_lt_succ),
    Nat.succ_mul]

/-- Each magnitude has more units than the one before, by the spacing of its stretch. -/
theorem units_lt_succ (k : Nat) : units k < units (k + 1) := by
  obtain ⟨scale, significand, rfl, hlt, hs⟩ := exists_stretch k
  rw [units_stretch hlt.le hs, units_stretch_succ hlt hs]
  exact Nat.lt_add_of_pos_right (Nat.two_pow_pos scale)

/-- Units grow with magnitudes. -/
theorem strictMono_units : StrictMono units :=
  strictMono_nat_of_lt_succ units_lt_succ

/-- Magnitude zero has no units. -/
@[simp]
theorem units_zero : units 0 = 0 := by
  decide

-----------------------------------------------------------------------------------------
-- The nearest magnitude
-----------------------------------------------------------------------------------------

/-- A value of `x` units belongs to magnitude `k`: it lies between the midpoints to the neighbours
of `k`, and on a midpoint only if `k` is even. Nothing lies below magnitude zero. -/
structure Nearest (x : ℚ) (k : Nat) : Prop where
  lower : ((units (k - 1) + units k : Nat) : ℚ) ≤ 2 * x
  upper : 2 * x ≤ ((units k + units (k + 1) : Nat) : ℚ)
  even : 2 * x = ((units (k - 1) + units k : Nat) : ℚ)
      ∨ 2 * x = ((units k + units (k + 1) : Nat) : ℚ)
    → k % 2 = 0

/-- A value that belongs to a magnitude is below all that belong to a higher one. Two neighbours
could meet in a midpoint only, and they are not both even. -/
theorem Nearest.not_lt {x : ℚ} {j k : Nat} (hj : Nearest x j) (hk : Nearest x k) : ¬j < k := by
  intro hlt
  obtain ⟨rest, rfl⟩ := Nat.exists_eq_add_of_lt hlt
  have hle : units j + units (j + 1) ≤ units (j + rest + 1 - 1) + units (j + rest + 1) :=
    Nat.add_le_add (strictMono_units.monotone (by omega)) (strictMono_units.monotone (by omega))
  have hback : units (j + rest + 1 - 1) + units (j + rest + 1) ≤ units j + units (j + 1) := by
    exact_mod_cast hk.lower.trans hj.upper
  have hmid : 2 * x = ((units j + units (j + 1) : Nat) : ℚ) := by
    refine le_antisymm hj.upper ?_
    exact_mod_cast (Nat.cast_le.2 hle).trans hk.lower
  have hjeven := hj.even (Or.inr hmid)
  have hkeven := hk.even (Or.inl (hmid.trans (by rw [le_antisymm hle hback])))
  have hlast : units (j + rest) ≤ units j := by
    have := units_lt_succ (j + rest)
    have := strictMono_units.monotone (show j + 1 ≤ j + rest + 1 by omega)
    rw [Nat.add_sub_cancel] at hback
    omega
  have := strictMono_units.le_iff_le.1 hlast
  omega

/-- A value belongs to one magnitude only, since neither can be the higher one. -/
theorem Nearest.unique {x : ℚ} {j k : Nat} (hj : Nearest x j) (hk : Nearest x k) : j = k :=
  le_antisymm (Nat.not_lt.1 (hk.not_lt hj)) (Nat.not_lt.1 (hj.not_lt hk))

/-- A magnitude is the nearest to its own value. -/
theorem nearest_units (k : Nat) : Nearest (units k) k := by
  have hup := units_lt_succ k
  have hdown : units (k - 1) ≤ units k := strictMono_units.monotone (Nat.sub_le k 1)
  refine ⟨?_, ?_, ?_⟩
  · exact_mod_cast (by omega : units (k - 1) + units k ≤ 2 * units k)
  · exact_mod_cast (by omega : 2 * units k ≤ units k + units (k + 1))
  · rintro (h | h)
    · have heq : 2 * units k = units (k - 1) + units k := by exact_mod_cast h
      have := strictMono_units.injective (show units (k - 1) = units k by omega)
      omega
    · have heq : 2 * units k = units k + units (k + 1) := by exact_mod_cast h
      omega

/-- The nearest magnitude of a quotient, in natural numbers. -/
theorem nearest_div_iff {n d k : Nat} (hd : 0 < d)
    : Nearest (n / d) k
      ↔ (units (k - 1) + units k) * d ≤ 2 * n
        ∧ 2 * n ≤ (units k + units (k + 1)) * d
        ∧ (2 * n = (units (k - 1) + units k) * d ∨ 2 * n = (units k + units (k + 1)) * d
          → k % 2 = 0) := by
  have hpos : (0 : ℚ) < d := Nat.cast_pos.2 hd
  have hle : ∀ a : Nat, (a : ℚ) ≤ 2 * (n / d) ↔ a * d ≤ 2 * n := by
    intro a
    rw [← mul_div_assoc, le_div_iff₀ hpos]
    exact_mod_cast Iff.rfl
  have hge : ∀ a : Nat, 2 * ((n : ℚ) / d) ≤ a ↔ 2 * n ≤ a * d := by
    intro a
    rw [← mul_div_assoc, div_le_iff₀ hpos]
    exact_mod_cast Iff.rfl
  have heq : ∀ a : Nat, 2 * ((n : ℚ) / d) = a ↔ 2 * n = a * d := by
    intro a
    rw [le_antisymm_iff, hle, hge, le_antisymm_iff]
  constructor
  · rintro ⟨hlower, hupper, heven⟩
    rw [heq, heq] at heven
    exact ⟨(hle _).1 hlower, (hge _).1 hupper, heven⟩
  · rintro ⟨hlower, hupper, heven⟩
    rw [← heq, ← heq] at heven
    exact ⟨(hle _).2 hlower, (hge _).2 hupper, heven⟩

-----------------------------------------------------------------------------------------
-- Rounding a quotient
-----------------------------------------------------------------------------------------

/-- The rounded quotient is within a half, and exactly a half away only if it is even. -/
theorem divHalfEven_spec (n : Nat) {d : Nat} (hd : 0 < d)
    : 2 * (divHalfEven n d * d) ≤ 2 * n + d
      ∧ 2 * n ≤ 2 * (divHalfEven n d * d) + d
      ∧ (2 * (divHalfEven n d * d) = 2 * n + d ∨ 2 * n = 2 * (divHalfEven n d * d) + d
        → divHalfEven n d % 2 = 0) := by
  have hdiv := Nat.div_add_mod' n d
  have hmod := Nat.mod_lt n hd
  have hnext : (n / d + 1) * d = n / d * d + d := Nat.succ_mul _ _
  rw [divHalfEven]
  cases hc : compare (2 * (n % d)) d with
  | lt =>
      have := Nat.compare_eq_lt.1 hc
      dsimp only
      omega
  | gt =>
      have := Nat.compare_eq_gt.1 hc
      dsimp only
      omega
  | eq =>
      have := Nat.compare_eq_eq.1 hc
      dsimp only
      rcases Nat.mod_two_eq_zero_or_one (n / d) with he | ho
      · rw [he, Nat.add_zero]
        omega
      · rw [ho]
        omega

/-- The quotient fits the stretch that rounding looks at. -/
theorem scale_spec (n : Nat) {d : Nat} (hd : 0 < d)
    : n < 2 * perExponent * (d * 2 ^ ((n / d).log2 - 52))
      ∧ ((n / d).log2 - 52 = 0 ∨ perExponent * (d * 2 ^ ((n / d).log2 - 52)) ≤ n) := by
  have hlt : n < (n / d + 1) * d := by
    have := Nat.div_add_mod' n d
    have := Nat.mod_lt n hd
    rw [Nat.succ_mul]
    omega
  have htop : n / d + 1 ≤ 2 * perExponent * 2 ^ ((n / d).log2 - 52) := by
    calc n / d + 1
      _ ≤ 2 ^ ((n / d).log2 + 1) := Nat.lt_log2_self
      _ ≤ 2 ^ (53 + ((n / d).log2 - 52)) := Nat.pow_le_pow_right (by decide) (by omega)
      _ = 2 * perExponent * 2 ^ ((n / d).log2 - 52) := Nat.pow_add 2 53 _
  refine ⟨?_, ?_⟩
  · calc n
      _ < (n / d + 1) * d := hlt
      _ ≤ 2 * perExponent * 2 ^ ((n / d).log2 - 52) * d := Nat.mul_le_mul_right d htop
      _ = 2 * perExponent * (d * 2 ^ ((n / d).log2 - 52)) := by ring
  · rcases Nat.lt_or_ge 52 (n / d).log2 with hbig | hsmall
    · right
      have hne : n / d ≠ 0 := by
        intro h0
        rw [h0] at hbig
        revert hbig
        decide
      calc perExponent * (d * 2 ^ ((n / d).log2 - 52))
        _ = 2 ^ 52 * 2 ^ ((n / d).log2 - 52) * d := by ring
        _ = 2 ^ (n / d).log2 * d := by rw [← Nat.pow_add, Nat.add_sub_cancel' hbig.le]
        _ ≤ n / d * d := Nat.mul_le_mul_right d (Nat.log2_self_le hne)
        _ ≤ n := Nat.div_mul_le_self n d
    · left
      omega

/-- A significand within a half of a quotient on its stretch gives the nearest magnitude. Where the
spacing changes, at the ends of the stretch, the quotient lies on the inner side. -/
theorem nearest_of_significand {n d scale significand : Nat} (hd : 0 < d)
    (htop : n < 2 * perExponent * (d * 2 ^ scale))
    (hbottom : scale = 0 ∨ perExponent * (d * 2 ^ scale) ≤ n)
    (hlow : 2 * (significand * (d * 2 ^ scale)) ≤ 2 * n + d * 2 ^ scale)
    (hup : 2 * n ≤ 2 * (significand * (d * 2 ^ scale)) + d * 2 ^ scale)
    (heven : 2 * (significand * (d * 2 ^ scale)) = 2 * n + d * 2 ^ scale
        ∨ 2 * n = 2 * (significand * (d * 2 ^ scale)) + d * 2 ^ scale
      → significand % 2 = 0)
    : Nearest (n / d) (scale * perExponent + significand) := by
  have hspace : 0 < d * 2 ^ scale := Nat.mul_pos hd (Nat.two_pow_pos scale)
  have hle : significand ≤ 2 * perExponent := by
    by_contra hgt
    have := Nat.mul_le_mul_right (d * 2 ^ scale) (Nat.lt_of_not_le hgt)
    rw [Nat.succ_mul] at this
    omega
  have hs : scale = 0 ∨ perExponent ≤ significand := by
    refine hbottom.imp_right fun hge => ?_
    by_contra hlt
    have := Nat.mul_le_mul_right (d * 2 ^ scale) (Nat.succ_le_of_lt (Nat.lt_of_not_le hlt))
    rw [Nat.succ_mul] at this
    omega
  have hhere : units (scale * perExponent + significand) * d = significand * (d * 2 ^ scale) := by
    rw [units_stretch hle hs]
    ring
  have hnext : units (scale * perExponent + significand + 1) * d
        = significand * (d * 2 ^ scale) + d * 2 ^ scale
      ∨ n < significand * (d * 2 ^ scale)
        ∧ significand * (d * 2 ^ scale) < units (scale * perExponent + significand + 1) * d := by
    rcases hle.lt_or_eq with hlt | rfl
    · left
      rw [units_stretch_succ hlt hs]
      ring
    · right
      rw [← hhere]
      exact ⟨hhere ▸ htop, Nat.mul_lt_mul_of_pos_right (units_lt_succ _) hd⟩
  have hprev : units (scale * perExponent + significand - 1) * d + d * 2 ^ scale
        = significand * (d * 2 ^ scale)
      ∨ significand * (d * 2 ^ scale) ≤ n
        ∧ units (scale * perExponent + significand - 1) * d < significand * (d * 2 ^ scale)
      ∨ units (scale * perExponent + significand - 1) * d = 0
        ∧ significand * (d * 2 ^ scale) = 0
        ∧ significand % 2 = 0 := by
    rcases Nat.eq_zero_or_pos significand with rfl | hpos
    · obtain rfl : scale = 0 := hs.resolve_right (by decide)
      simp
    by_cases hstart : scale = 0 ∨ perExponent < significand
    · left
      have hpred := congrArg (· * d) (units_stretch_pred hle hpos hstart)
      rw [Nat.add_mul] at hpred
      linarith
    · right
      left
      -- the significand is the first of a stretch, and the quotient is not below it
      obtain rfl : significand = perExponent := by omega
      refine ⟨hbottom.resolve_left fun h0 => hstart (Or.inl h0), ?_⟩
      rw [← hhere]
      exact Nat.mul_lt_mul_of_pos_right (strictMono_units (by omega)) hd
  have hparity : (scale * perExponent + significand) % 2 = significand % 2 := by
    rw [Nat.add_mod, Nat.mul_mod, show perExponent % 2 = 0 from rfl]
    simp
  rw [nearest_div_iff hd, hparity, Nat.add_mul, Nat.add_mul, hhere]
  refine ⟨?_, ?_, ?_⟩
  · omega
  · omega
  · omega

/-- Rounding a quotient gives the magnitude that it belongs to. -/
theorem nearest_roundUnits (n : Nat) {d : Nat} (hd : 0 < d)
    : Nearest (n / d) (roundUnits n d) := by
  obtain ⟨htop, hbottom⟩ := scale_spec n hd
  have hspace : 0 < d * 2 ^ ((n / d).log2 - 52) := Nat.mul_pos hd (Nat.two_pow_pos _)
  obtain ⟨hlow, hup, heven⟩ := divHalfEven_spec n hspace
  rw [roundUnits, Nat.shiftLeft_eq]
  exact nearest_of_significand hd htop hbottom hlow hup heven

/-- Rounding gives a magnitude if the quotient belongs to it, as it belongs to one only. -/
theorem roundUnits_eq_of_nearest {n d k : Nat} (hd : 0 < d) (h : Nearest (n / d) k)
    : roundUnits n d = k :=
  (nearest_roundUnits n hd).unique h

/-- A value that is a magnitude is not changed by rounding. -/
theorem roundUnits_units (k : Nat) : roundUnits (units k) 1 = k := by
  apply roundUnits_eq_of_nearest Nat.one_pos
  rw [Nat.cast_one, div_one]
  exact nearest_units k

end LoopCalc.Number
