import FactNet.Decimal.Shortest
import FactNet.Proofs.Decimal.Nearest

/-!
# The shortest decimal lies near

The two neighbours of a double on a grid of decimals are compared with the double in whole numbers,
and one that is taken lies near enough to be rounded to it.  Seventeen digits make the grid so fine
that one of the two is taken: either the numbers that are rounded to the double cover more than the
distance of the two, or the double is a power of two, and those that are cover enough of it.

## Main definitions

* `Fraction.toRat` — the value of a quotient.
* `gridOf` — a double on the grid of the multiples of a power of ten.

## Main results

* `near_of_best?` — what is taken lies near the double.
* `best?_ne_none` — seventeen digits are enough.
* `near_shortest` — **the shortest decimal lies near the double.**
-/

namespace FactNet.Decimal

open Float.Model Float.Model.UnpackedFloat
open FactNet.Double

/-! ### Quotients -/

namespace Fraction

/-- The value of a quotient. -/
def toRat (x : Fraction) : ℚ := x.num / x.den

theorem den_pos_scaleDown {x : Fraction} (h : 0 < x.den) (u : ℤ) : 0 < (x.scaleDown u).den := by
  unfold scaleDown
  split
  · exact Nat.mul_pos h (Nat.pow_pos (by decide))
  · exact h

theorem toRat_scaleDown (x : Fraction) (u : ℤ) : (x.scaleDown u).toRat = x.toRat / 10 ^ u := by
  unfold scaleDown toRat
  split
  · next hu =>
    obtain ⟨n, rfl⟩ := Int.eq_ofNat_of_zero_le hu
    have hpower : (powerOfTen ((n : ℤ)).toNat : ℚ) = 10 ^ n := by
      show ((10 ^ n : ℕ) : ℚ) = 10 ^ n
      push_cast
      rfl
    rw [zpow_natCast, ← hpower]
    push_cast
    rw [div_div]
  · next hu =>
    obtain ⟨n, rfl⟩ : ∃ n : ℕ, u = -n := ⟨u.natAbs, by omega⟩
    have hpower : (powerOfTen (- -(n : ℤ)).toNat : ℚ) = 10 ^ n := by
      rw [neg_neg]
      show ((10 ^ n : ℕ) : ℚ) = 10 ^ n
      push_cast
      rfl
    rw [zpow_neg, zpow_natCast, ← hpower]
    push_cast
    field_simp

end Fraction

theorem den_pos_fractionOf (m : Nat) (q : ℤ) : 0 < (fractionOf m q).den := by
  unfold fractionOf
  split
  · exact Nat.one_pos
  · rw [Nat.shiftLeft_eq, one_mul]
    exact Nat.two_pow_pos _

theorem toRat_fractionOf (m : Nat) (q : ℤ) : (fractionOf m q).toRat = m * 2 ^ q := by
  unfold fractionOf Fraction.toRat
  split
  · next hq =>
    obtain ⟨n, rfl⟩ := Int.eq_ofNat_of_zero_le hq
    rw [zpow_natCast, Nat.shiftLeft_eq]
    push_cast
    simp
  · next hq =>
    obtain ⟨n, rfl⟩ : ∃ n : ℕ, q = -n := ⟨q.natAbs, by omega⟩
    have hn : (- -(n : ℤ)).toNat = n := by omega
    rw [hn, zpow_neg, zpow_natCast, Nat.shiftLeft_eq]
    push_cast
    field_simp

/-! ### Neighbours on a grid -/

/-- Whole numbers that are compared tell whether a distance is less than half the way. -/
theorem attains_iff {gap c num den m : Nat} (hden : 0 < den) (hc : 0 < c) :
    (if m % 2 == 0 then decide (gap * c ≤ num) else decide (gap * c < num)) = true ↔
      Attains m (gap / den : ℚ) (num / den / c) := by
  have hden' : (0 : ℚ) < den := by exact_mod_cast hden
  have hc' : (0 : ℚ) < c := by exact_mod_cast hc
  have hlt : (gap / den : ℚ) < num / den / c ↔ gap * c < num := by
    rw [lt_div_iff₀ hc', div_mul_eq_mul_div, div_lt_div_iff_of_pos_right hden']
    exact_mod_cast Iff.rfl
  have heq : (gap / den : ℚ) = num / den / c ↔ gap * c = num := by
    rw [eq_div_iff hc'.ne', div_mul_eq_mul_div, div_left_inj' hden'.ne']
    exact_mod_cast Iff.rfl
  unfold Attains
  rw [hlt, heq]
  split
  · next heven =>
    rw [decide_eq_true_iff, le_iff_lt_or_eq]
    simp_all
  · next hodd =>
    rw [decide_eq_true_iff]
    simp_all

/-- The double `m · 2 ^ q` on the grid of the multiples of `10 ^ u`. -/
def gridOf (m : Nat) (q u : ℤ) : OnGrid :=
  ⟨(fractionOf m q).scaleDown u, m, m == hiddenBit && q != -1074⟩

section Grid

variable {m n : Nat} {q u : ℤ}

theorem den_pos_gridOf (m : Nat) (q u : ℤ) : 0 < (gridOf m q u).value.den :=
  Fraction.den_pos_scaleDown (den_pos_fractionOf m q) u

theorem toRat_gridOf (m : Nat) (q u : ℤ) : (gridOf m q u).value.toRat = m * 2 ^ q / 10 ^ u := by
  rw [gridOf, Fraction.toRat_scaleDown, toRat_fractionOf]

theorem mul_den_le_iff : n * (gridOf m q u).value.den ≤ (gridOf m q u).value.num ↔
    (n : ℚ) * 10 ^ u ≤ m * 2 ^ q := by
  have hden : (0 : ℚ) < (gridOf m q u).value.den := by exact_mod_cast den_pos_gridOf m q u
  rw [← le_div_iff₀ (by positivity), ← toRat_gridOf, Fraction.toRat, le_div_iff₀ hden]
  exact_mod_cast Iff.rfl

/-- How many times the distance down from a double goes into the double. -/
def OnGrid.timesDown (g : OnGrid) : Nat := if g.narrow then 4 * g.m else 2 * g.m

theorem timesDown_pos (hm : 0 < m) : 0 < (gridOf m q u).timesDown := by
  unfold OnGrid.timesDown gridOf
  split <;> exact Nat.mul_pos (by decide) hm

theorem halfWayDown_div (hm : 0 < m) (hq : -1074 ≤ q) :
    halfWayDown m q / 10 ^ u = (gridOf m q u).value.toRat / (gridOf m q u).timesDown := by
  have hm' : (m : ℚ) ≠ 0 := by exact_mod_cast hm.ne'
  have hiff : (m = 2 ^ 52 ∧ -1074 < q) ↔ (gridOf m q u).narrow = true := by
    show _ ↔ (m == hiddenBit && q != -1074) = true
    rw [Bool.and_eq_true, beq_iff_eq, bne_iff_ne]
    exact and_congr Iff.rfl (by omega)
  rw [toRat_gridOf, halfWayDown, OnGrid.timesDown]
  by_cases hnarrow : (gridOf m q u).narrow = true
  · rw [if_pos (hiff.2 hnarrow), if_pos hnarrow]
    show (2 : ℚ) ^ q / 4 / 10 ^ u = m * 2 ^ q / 10 ^ u / (4 * m : ℕ)
    push_cast
    field_simp
  · rw [if_neg fun h => hnarrow (hiff.1 h), if_neg hnarrow]
    show (2 : ℚ) ^ q / 2 / 10 ^ u = m * 2 ^ q / 10 ^ u / (2 * m : ℕ)
    push_cast
    field_simp

/-- A neighbour below reaches the double just if it lies near. -/
theorem reachesBelow_iff (hm : 0 < m) (hq : -1074 ≤ q) (hle : (n : ℚ) * 10 ^ u ≤ m * 2 ^ q) :
    (gridOf m q u).reachesBelow n = true ↔ Near (n * 10 ^ u) m q := by
  have hpow : (0 : ℚ) < 10 ^ u := by positivity
  have hdistance : (((gridOf m q u).value.num - n * (gridOf m q u).value.den : ℕ) : ℚ) /
      (gridOf m q u).value.den = (m * 2 ^ q - n * 10 ^ u) / 10 ^ u := by
    have hden : ((gridOf m q u).value.den : ℚ) ≠ 0 := by exact_mod_cast (den_pos_gridOf m q u).ne'
    rw [Nat.cast_sub (mul_den_le_iff.2 hle), sub_div, sub_div, ← toRat_gridOf, Fraction.toRat]
    push_cast
    field_simp
  have hattains : (gridOf m q u).reachesBelow n = true ↔
      Attains m (m * 2 ^ q - n * 10 ^ u) (halfWayDown m q) := by
    rw [← attains_div_iff hpow, ← hdistance, halfWayDown_div hm hq]
    exact attains_iff (den_pos_gridOf m q u) (timesDown_pos hm)
  rw [hattains]
  refine ⟨fun h => ⟨?_, h⟩, Near.below⟩
  exact attains_of_nonpos (sub_nonpos.2 hle) (by positivity)

/-- And so does a neighbour above. -/
theorem reachesAbove_iff (hm : 0 < m) (hle : m * 2 ^ q ≤ (n : ℚ) * 10 ^ u) :
    (gridOf m q u).reachesAbove n = true ↔ Near (n * 10 ^ u) m q := by
  have hpow : (0 : ℚ) < 10 ^ u := by positivity
  have hm' : (m : ℚ) ≠ 0 := by exact_mod_cast hm.ne'
  have hden : (0 : ℚ) < (gridOf m q u).value.den := by exact_mod_cast den_pos_gridOf m q u
  have hnum : (gridOf m q u).value.num ≤ n * (gridOf m q u).value.den := by
    rw [← div_le_iff₀ hpow, ← toRat_gridOf, Fraction.toRat, div_le_iff₀ hden] at hle
    exact_mod_cast hle
  -- the grid measures in parts of its step
  have hdistance : ((n * (gridOf m q u).value.den - (gridOf m q u).value.num : ℕ) : ℚ) /
      (gridOf m q u).value.den = (n * 10 ^ u - m * 2 ^ q) / 10 ^ u := by
    rw [Nat.cast_sub hnum, sub_div, sub_div, ← toRat_gridOf, Fraction.toRat]
    push_cast
    field_simp
  have hhalf : (2 : ℚ) ^ q / 2 / 10 ^ u = (gridOf m q u).value.toRat / (2 * m : ℕ) := by
    rw [toRat_gridOf]
    push_cast
    field_simp
  have hattains : (gridOf m q u).reachesAbove n = true ↔
      Attains m (n * 10 ^ u - m * 2 ^ q) (2 ^ q / 2) := by
    rw [← attains_div_iff hpow, ← hdistance, hhalf]
    exact attains_iff (den_pos_gridOf m q u) (Nat.mul_pos two_pos hm)
  rw [hattains]
  refine ⟨fun h => ⟨h, ?_⟩, Near.above⟩
  exact attains_of_nonpos (sub_nonpos.2 hle) (halfWayDown_pos m q)

/-- A neighbour that is taken is the double itself or reaches it, and if none is taken then neither
reaches it. -/
theorem OnGrid.best?_cases (g : OnGrid) {low : Nat} (hlow : low = g.value.num / g.value.den) :
    (g.value.num % g.value.den = 0 ∧ g.best? = some low) ∨
      (g.reachesBelow low = true ∧ g.best? = some low) ∨
      (g.reachesAbove (low + 1) = true ∧ g.best? = some (low + 1)) ∨
      (g.reachesBelow low = false ∧ g.reachesAbove (low + 1) = false ∧ g.best? = none) := by
  unfold best?
  rw [← hlow]
  dsimp only
  by_cases hrest : g.value.num % g.value.den = 0
  · exact .inl ⟨hrest, if_pos (by simpa using hrest)⟩
  · rw [if_neg (by simpa using hrest)]
    right
    cases hdown : g.reachesBelow low with
    | false =>
      cases hup : g.reachesAbove (low + 1) with
      | false => exact .inr (.inr ⟨rfl, rfl, rfl⟩)
      | true => exact .inr (.inl ⟨rfl, rfl⟩)
    | true =>
      cases hup : g.reachesAbove (low + 1) with
      | false => exact .inl ⟨rfl, rfl⟩
      | true =>
        dsimp only
        split
        · exact .inl ⟨rfl, rfl⟩
        · split
          · exact .inr (.inl ⟨rfl, rfl⟩)
          · split
            · exact .inl ⟨rfl, rfl⟩
            · exact .inr (.inl ⟨rfl, rfl⟩)

/-- The neighbours of a double on a grid. -/
theorem exists_neighbours (m : Nat) (q u : ℤ) : ∃ low : Nat,
    low = (gridOf m q u).value.num / (gridOf m q u).value.den ∧
      (low : ℚ) * 10 ^ u ≤ m * 2 ^ q ∧ (m : ℚ) * 2 ^ q < (low + 1 : ℕ) * 10 ^ u := by
  refine ⟨_, rfl, mul_den_le_iff.1 (Nat.div_mul_le_self _ _), ?_⟩
  rw [← not_le, ← mul_den_le_iff, not_le, Nat.mul_comm]
  exact Nat.lt_mul_div_succ _ (den_pos_gridOf m q u)

/-- **What is taken on a grid lies near the double.** -/
theorem near_of_best? (hm : 0 < m) (hq : -1074 ≤ q) (h : (gridOf m q u).best? = some n) :
    Near (n * 10 ^ u) m q := by
  obtain ⟨low, hdiv, hlow, hhigh⟩ := exists_neighbours m q u
  rcases (gridOf m q u).best?_cases hdiv with
    ⟨hrest, hbest⟩ | ⟨hdown, hbest⟩ | ⟨hup, hbest⟩ | ⟨-, -, hbest⟩
  · obtain rfl := Option.some.inj (h.symm.trans hbest)
    have hden : ((gridOf m q u).value.den : ℚ) ≠ 0 := by exact_mod_cast (den_pos_gridOf m q u).ne'
    have hexact : (n : ℚ) * 10 ^ u = m * 2 ^ q := by
      rw [hdiv, Nat.cast_div (Nat.dvd_of_mod_eq_zero hrest) hden, ← Fraction.toRat, toRat_gridOf,
        div_mul_cancel₀ _ (by positivity)]
    rw [hexact]
    exact near_self m q
  · obtain rfl := Option.some.inj (h.symm.trans hbest)
    exact (reachesBelow_iff hm hq hlow).1 hdown
  · obtain rfl := Option.some.inj (h.symm.trans hbest)
    exact (reachesAbove_iff hm hhigh.le).1 hup
  · exact absurd (h.symm.trans hbest) nofun

/-- **A grid that is fine enough for seventeen digits has a decimal near the double.** -/
theorem best?_ne_none (hm : 0 < m) (hq : -1074 ≤ q) (hsmall : m < 2 ^ 53)
    (h : (10 : ℚ) ^ (u + 16) ≤ m * 2 ^ q) : (gridOf m q u).best? ≠ none := by
  obtain ⟨low, hdiv, hlow, hhigh⟩ := exists_neighbours m q u
  rcases (gridOf m q u).best?_cases hdiv with
    ⟨-, hbest⟩ | ⟨-, hbest⟩ | ⟨-, hbest⟩ | ⟨hdown, hup, -⟩
  · simp [hbest]
  · simp [hbest]
  · simp [hbest]
  · -- both neighbours would be too far away for the distance between them
    have hnear : ¬Near (low * 10 ^ u) m q := by
      rw [← reachesBelow_iff hm hq hlow, hdown]
      exact Bool.false_ne_true
    have hnear' : ¬Near ((low + 1 : ℕ) * 10 ^ u) m q := by
      rw [← reachesAbove_iff hm hhigh.le, hup]
      exact Bool.false_ne_true
    have hfar : halfWayDown m q ≤ m * 2 ^ q - low * 10 ^ u := by
      by_contra hless
      exact hnear ⟨attains_of_nonpos (sub_nonpos.2 hlow) (by positivity), .inl (not_le.1 hless)⟩
    have hfar' : (2 : ℚ) ^ q / 2 ≤ (low + 1 : ℕ) * 10 ^ u - m * 2 ^ q := by
      by_contra hless
      exact hnear' ⟨.inl (not_le.1 hless),
        attains_of_nonpos (sub_nonpos.2 hhigh.le) (halfWayDown_pos m q)⟩
    have hpow : (0 : ℚ) < 2 ^ q := by positivity
    rw [zpow_add₀ (by norm_num)] at h
    push_cast at hfar'
    unfold halfWayDown at hfar
    split at hfar
    · next hnarrow =>
      rw [hnarrow.1] at h
      push_cast at h
      linarith
    · have hmul : (m : ℚ) * 2 ^ q ≤ 2 ^ 53 * 2 ^ q :=
        mul_le_mul_of_nonneg_right (by exact_mod_cast hsmall.le) hpow.le
      norm_num at h hmul
      linarith

end Grid

/-! ### The shortest decimal -/

section Shortest

variable {m : Nat} {q : ℤ}

theorem le_mul_pow_stepsToOne {den : Nat} : ∀ (fuel num : Nat), den ≤ num * 10 ^ fuel →
    den ≤ num * 10 ^ stepsToOne den fuel num
  | 0, _, h => h
  | fuel + 1, num, h => by
    rw [stepsToOne]
    split
    · next hle => simpa using hle
    · have hle : den ≤ num * 10 * 10 ^ fuel := by rwa [mul_assoc, ← pow_succ']
      have ih := le_mul_pow_stepsToOne fuel (num * 10) hle
      rwa [mul_assoc, ← pow_succ'] at ih

/-- The decimal exponent of a quotient is that of a power of ten that does not exceed it. -/
theorem zpow_exponent10_le {x : Fraction} (hden : 0 < x.den)
    (h : (10 : ℚ) ^ (-400 : ℤ) ≤ x.toRat) : (10 : ℚ) ^ x.exponent10 ≤ x.toRat := by
  have hden' : (0 : ℚ) < x.den := by exact_mod_cast hden
  unfold Fraction.exponent10
  split
  · next hle =>
    have hne : x.num / x.den ≠ 0 := (Nat.div_pos hle hden).ne'
    have hcount : 1 ≤ digitCount (x.num / x.den) := by
      rw [digitCount_eq hne]
      omega
    have hexp : (digitCount (x.num / x.den) : ℤ) - 1 = (digitCount (x.num / x.den) - 1 : ℕ) := by
      omega
    rw [hexp, zpow_natCast]
    calc (10 : ℚ) ^ (digitCount (x.num / x.den) - 1) ≤ (x.num / x.den : ℕ) := by
          exact_mod_cast pow_le_of_digitCount hne
      _ ≤ x.num / x.den := Nat.cast_div_le
  · -- below one the tens are counted that make it one at least
    have hsteps : x.den ≤ x.num * 10 ^ stepsToOne x.den 400 x.num := by
      refine le_mul_pow_stepsToOne 400 x.num ?_
      have hpow : (10 : ℚ) ^ (-400 : ℤ) = ((10 ^ 400 : ℕ) : ℚ)⁻¹ := by
        rw [zpow_neg, Nat.cast_pow]
        rfl
      rw [hpow, Fraction.toRat, inv_le_iff_one_le_mul₀ (by positivity), div_mul_eq_mul_div,
        one_le_div hden'] at h
      exact_mod_cast h
    rw [zpow_neg, zpow_natCast, Fraction.toRat, inv_le_iff_one_le_mul₀ (by positivity),
      div_mul_eq_mul_div, one_le_div hden']
    exact_mod_cast hsteps

/-- **One of the decimals that are looked at lies near the double.** -/
theorem near_shortestFrom (hm : 0 < m) (hq : -1074 ≤ q) (hsmall : m < 2 ^ 53) {p : ℤ}
    (hp : (10 : ℚ) ^ p ≤ m * 2 ^ q) : ∀ fuel places, 0 < fuel → fuel + places = 18 →
      Near (shortestFrom m q (m == hiddenBit && q != -1074) p fuel places).value m q
  | fuel + 1, places, _, hsum => by
    rw [shortestFrom]
    split
    · next n hbest => exact near_of_best? hm hq hbest
    · next hbest =>
      rcases Nat.eq_zero_or_pos fuel with rfl | hfuel
      · refine absurd hbest (best?_ne_none hm hq hsmall ?_)
        have hexp : p - (places : ℤ) + 1 + 16 = p := by omega
        rwa [hexp]
      · exact near_shortestFrom hm hq hsmall hp fuel (places + 1) hfuel (by omega)

/-- Zeros at the end of a decimal do not count. -/
theorem value_dropZeros : ∀ (fuel : Nat) (d : Significand), (dropZeros fuel d).value = d.value
  | 0, _ => rfl
  | fuel + 1, d => by
    rw [dropZeros]
    split
    · next hzero =>
      rw [value_dropZeros fuel, Significand.value, Significand.value]
      obtain ⟨k, hk⟩ : ∃ k, d.digits = 10 * k := by
        rw [Bool.and_eq_true, beq_iff_eq] at hzero
        exact ⟨d.digits / 10, by omega⟩
      rw [hk, Nat.mul_div_cancel_left _ (by decide), zpow_add_one₀ (by norm_num)]
      push_cast
      ring
    · rfl

/-- **The shortest decimal lies near the double.** -/
theorem near_shortest {hm : 0 < m} (ha : IsCanonical (.finite .positive m q hm)) (he : q ≤ 971) :
    Near (shortest m q).value m q := by
  obtain ⟨hlow, -⟩ := Significand.range_of_isCanonical ha he
  cases ha with
  | finite _ hsmall hlowest _ =>
  rw [shortest, if_neg hm.ne']
  dsimp only
  rw [value_dropZeros]
  refine near_shortestFrom hm hlowest hsmall ?_ 17 1 (by decide) (by decide)
  rw [← toRat_fractionOf] at hlow ⊢
  have hhalf : (2 : ℚ) ^ (-1074 : ℤ) / 2 ≤ 2 ^ (-1074 : ℤ) := half_le_self (by positivity)
  exact zpow_exponent10_le (den_pos_fractionOf m q)
    ((Significand.ten_zpow_lt_half.le.trans hhalf).trans hlow)

/-- **The shortest decimal of a double is read as the double.** -/
theorem toFloat_shortest {hm : 0 < m} (ha : IsCanonical (.finite .positive m q hm))
    (he : q ≤ 971) : (shortest m q).toFloat = .ofModel (.pack (.finite .positive m q hm)) :=
  Significand.toFloat_eq ha he (near_shortest ha he)

end Shortest

end FactNet.Decimal
