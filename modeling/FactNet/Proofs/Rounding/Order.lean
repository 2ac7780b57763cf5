import FactNet.Proofs.Rounding.Nearest

/-!
# Rounding in order

Doubles that are not below zero rank as their values do, so adding a number to them and dividing
them by one keeps their order, whatever is lost by rounding, and whether or not the result is too
large to be a double.

## Main definitions

* `Double.IsNonneg` — what is not below zero.
* `Double.RoundsIncreasing` — an operation that rounds an increasing function.

## Main results

* `Double.rankOf_le_iff` — **doubles rank as their values do.**
* `Double.unpack_pack_of_isCanonical` — what is written as a double is read as it was written,
  unless it is too large.
* `Double.RoundsIncreasing.rankOf_le` — **an operation that rounds an increasing function is
  increasing.**
* `Double.half_add_div_two_le` — **the more of a number is halved and added to a half, the larger
  the sum.**
-/

namespace FactNet

open Scalar

namespace Double

open Float.Model Float.Model.UnpackedFloat

/-! ### Doubles in order -/

section Order

variable {a b : UnpackedFloat}

theorem value_nonneg (a : UnpackedFloat) : 0 ≤ value a := by
  cases a with
  | finite s m e hm =>
    rw [value_finite]
    positivity
  | _ => exact le_refl _

theorem value_lt_of_rankOf_lt (ha : IsCanonical a) (hb : IsCanonical b)
    (h : rankOf a < rankOf b) : value a < value b := by
  cases ha with
  | zero s =>
    cases hb with
    | zero s => exact absurd h (lt_irrefl _)
    | @finite m e hm =>
      have hpos : (0 : ℚ) < m := by exact_mod_cast hm
      rw [value_zero, value_finite]
      positivity
  | @finite m e hm hsmall hlowest =>
    cases hb with
    | zero s => exact absurd h (by simp [rankOf, Prod.Lex.toLex_lt_toLex])
    | @finite m' e' hm' _ _ hlarge =>
      have hlex : e < e' ∨ e = e' ∧ (m : ℤ) < m' := by
        simpa [rankOf, Prod.Lex.toLex_lt_toLex] using h
      rw [value_finite, value_finite]
      -- a higher exponent counts for more than any significand
      rcases hlex with hlt | ⟨rfl, hlt⟩
      · calc (m : ℚ) * 2 ^ e < (2 ^ 53 : ℕ) * 2 ^ e :=
              mul_lt_mul_of_pos_right (by exact_mod_cast hsmall) (by positivity)
          _ = 2 ^ ((53 : ℕ) + e) := (two_zpow_add 53 e).symm
          _ ≤ 2 ^ ((52 : ℕ) + e') := zpow_le_zpow_right₀ one_le_two (by push_cast; omega)
          _ = (2 ^ 52 : ℕ) * 2 ^ e' := two_zpow_add 52 e'
          _ ≤ m' * 2 ^ e' := mul_le_mul_of_nonneg_right
              (by exact_mod_cast hlarge (by omega)) (by positivity)
      · exact mul_lt_mul_of_pos_right (by exact_mod_cast hlt) (by positivity)

theorem value_eq_of_rankOf_eq (ha : IsCanonical a) (hb : IsCanonical b)
    (h : rankOf a = rankOf b) : value a = value b := by
  cases ha with
  | zero s =>
    cases hb with
    | zero s => rfl
    | finite hm => exact absurd h (by simp [rankOf])
  | @finite m e hm =>
    cases hb with
    | zero s => exact absurd h (by simp [rankOf])
    | @finite m' e' hm' =>
      obtain ⟨rfl, hm⟩ : e = e' ∧ (m : ℤ) = m' := by simpa [rankOf] using h
      obtain rfl : m = m' := by exact_mod_cast hm
      rfl

/-- **Of numbers that are written as doubles the larger ranks higher.** -/
theorem rankOf_le_iff (ha : IsCanonical a) (hb : IsCanonical b) :
    rankOf a ≤ rankOf b ↔ value a ≤ value b := by
  constructor
  · intro h
    rcases h.lt_or_eq with hlt | heq
    · exact (value_lt_of_rankOf_lt ha hb hlt).le
    · exact (value_eq_of_rankOf_eq ha hb heq).le
  · intro h
    exact not_lt.1 fun hlt => (value_lt_of_rankOf_lt hb ha hlt).not_ge h

/-- A double is written with its own exponent. -/
theorem isCanonical_unpack {f : Float.Model} {m : Nat} {e : ℤ} {hm : 0 < m}
    (h : f.unpack = .finite .positive m e hm) : IsCanonical f.unpack := by
  have hbias : (Format.binary64.exponentBias : ℤ) = 1023 := rfl
  rw [h]
  simp only [Float.Model.unpack, UnpackedFloat.unpack] at h
  split at h
  · split at h <;> cases h
  · split at h
    · next hexp =>
      split at h
      · cases h
      · obtain ⟨-, rfl, rfl⟩ := UnpackedFloat.finite.inj h
        rw [hexp, hbias]
        refine .finite _ ?_ (by simp) (by simp)
        exact lt_trans (BitVec.isLt _) (by norm_num)
    · next hexp =>
      obtain ⟨-, hm', rfl⟩ := UnpackedFloat.finite.inj h
      rw [toNat_one_append] at hm'
      have hnot : (@unpackExponent Format.binary64 f.toBits.toBitVec).toNat ≠ 0 :=
        fun h0 => hexp (BitVec.eq_of_toNat_eq h0)
      refine .finite _ ?_ ?_ ?_
      · have hlt : (@unpackMantissa Format.binary64 f.toBits.toBitVec).toNat < 2 ^ 52 :=
          BitVec.isLt _
        omega
      · rw [hbias]
        push_cast
        omega
      · omega

/-- What is not below zero: it is finite and written as a double, or infinite. -/
inductive IsNonneg : UnpackedFloat → Prop
  | infinity : IsNonneg (.infinity .positive)
  | finite {a : UnpackedFloat} (ha : IsCanonical a) : IsNonneg a

theorem IsNonneg.isNaN_eq_false (ha : IsNonneg a) : a.isNaN = false := by
  cases ha with
  | infinity => rfl
  | finite ha => cases ha <;> rfl

theorem IsNonneg.rankOf_le_infinity (ha : IsNonneg a) :
    rankOf a ≤ rankOf (.infinity .positive) := by
  cases ha with
  | infinity => exact le_refl _
  | finite ha => cases ha <;> simp [rankOf, Prod.Lex.toLex_le_toLex]

theorem IsNonneg.zero_le_rankOf (ha : IsNonneg a) : toLex (0, toLex (0, 0)) ≤ rankOf a := by
  cases ha with
  | infinity => simp [rankOf, Prod.Lex.toLex_le_toLex]
  | finite ha => cases ha <;> simp [rankOf, Prod.Lex.toLex_le_toLex]

theorem zero_le_iff {x : Float} : Scalar.zero ≤ x ↔ IsNonneg x.toModel.unpack := by
  have hzero : rank Scalar.zero = toLex (0, toLex (0, 0)) := rfl
  constructor
  · intro h
    obtain ⟨hnumber, hx⟩ := isNaN_of_le h
    have hle := (le_iff hnumber hx).1 h
    rw [hzero, rank] at hle
    cases hu : x.toModel.unpack with
    | notANumber => exact absurd hu (unpack_ne_notANumber hx)
    | zero s => exact .finite (.zero s)
    | infinity s =>
      cases s with
      | positive => exact .infinity
      | negative => exact absurd hle (by simp [hu, rankOf, Prod.Lex.toLex_le_toLex])
    | finite s m e hm =>
      cases s with
      | positive => exact .finite (hu ▸ isCanonical_unpack hu)
      | negative => exact absurd hle (by simp [hu, rankOf, Prod.Lex.toLex_le_toLex])
  · intro h
    have hx : x.isNaN = false := h.isNaN_eq_false
    rw [le_iff rfl hx, hzero]
    exact h.zero_le_rankOf

/-- A number with fewer places than a significand has, and the lowest exponent, is written with
all of them. -/
theorem pack_of_lt (s : Sign) {m : Nat} (hm : 0 < m) (h : m < 2 ^ 52) :
    UnpackedFloat.pack Format.binary64 (.finite s m (-1074) hm) =
      packComponents Format.binary64 s 0#11 (BitVec.ofNat 52 m) := by
  have hlog : m.log2 < 52 := (Nat.log2_lt hm.ne').2 h
  have hplaces : m.log2 + 1 ≠ 53 := by omega
  unfold UnpackedFloat.pack
  dsimp only
  rw [if_neg (by decide), if_neg (show ¬m.log2 + 1 = Format.binary64.mantissaBits from hplaces)]

/-- A number with fewer places than a significand has, and the lowest exponent, is read as it was
written. -/
theorem unpack_pack_of_lt {m : Nat} (hm : 0 < m) (h : m < 2 ^ 52) :
    (Float.Model.pack (.finite .positive m (-1074) hm)).unpack =
      .finite .positive m (-1074) hm := by
  have hpack := pack_of_lt .positive hm h
  have hsig : (BitVec.ofNat 52 m).toNat = m := by
    rw [BitVec.toNat_ofNat, Nat.mod_eq_of_lt h]
  have hne : BitVec.ofNat 52 m ≠ 0#52 :=
    fun h0 => hm.ne' (hsig ▸ congrArg BitVec.toNat h0)
  show UnpackedFloat.unpack Format.binary64
    (UnpackedFloat.pack Format.binary64 (.finite .positive m (-1074) hm)) = _
  rw [hpack, UnpackedFloat.unpack]
  simp only [unpackExponent_packComponents, unpackMantissa_packComponents,
    unpackSign_packComponents, hsig]
  rw [if_neg (by decide), if_pos trivial, dif_neg hne]
  rfl

/-- The rank from which on numbers are too large for doubles. -/
def limit : ℤ ×ₗ ℤ ×ₗ ℤ := toLex (1, toLex (972, 0))

/-- What is written as a double is read as it was written, unless it is too large. -/
theorem unpack_pack_of_isCanonical (ha : IsCanonical a) : (Float.Model.pack a).unpack =
    if rankOf a < limit then a else .infinity .positive := by
  cases ha with
  | zero s =>
    have hlt : rankOf (.zero s) < limit := by simp [rankOf, limit, Prod.Lex.toLex_lt_toLex]
    rw [if_pos hlt]
    cases s <;> rfl
  | @finite m e hm hsmall hlowest hlarge =>
    have hiff : rankOf (.finite .positive m e hm) < limit ↔ e ≤ 971 := by
      simp [rankOf, limit, Prod.Lex.toLex_lt_toLex]
      omega
    split
    · next hlt =>
      rw [hiff] at hlt
      rcases lt_or_ge m (2 ^ 52) with h | h
      · obtain rfl : e = -1074 := by omega
        exact unpack_pack_of_lt hm h
      · exact unpack_pack hm h hsmall hlowest hlt
    · next hnot =>
      -- the exponent does not fit into its field
      rw [hiff] at hnot
      have hlarge : UnpackedFloat.pack Format.binary64 (.finite .positive m e hm) =
          packedInfinity Format.binary64 .positive := by
        unfold UnpackedFloat.pack
        dsimp only
        rw [if_pos]
        have : (Format.binary64.exponentBias : Int) = 1023 := rfl
        show 2 ^ 11 ≤ _
        omega
      show UnpackedFloat.unpack Format.binary64 (UnpackedFloat.pack Format.binary64 _) = _
      rw [hlarge]
      rfl

theorem isNonneg_unpack_pack (ha : IsCanonical a) : IsNonneg (Float.Model.pack a).unpack := by
  rw [unpack_pack_of_isCanonical ha]
  split
  · exact .finite ha
  · exact .infinity

/-- Being too large for doubles changes no order. -/
theorem rankOf_unpack_pack_le (ha : IsCanonical a) (hb : IsCanonical b)
    (h : rankOf a ≤ rankOf b) :
    rankOf (Float.Model.pack a).unpack ≤ rankOf (Float.Model.pack b).unpack := by
  rw [unpack_pack_of_isCanonical hb]
  split
  · next hb' =>
    rw [unpack_pack_of_isCanonical ha, if_pos (lt_of_le_of_lt h hb')]
    exact h
  · exact (isNonneg_unpack_pack ha).rankOf_le_infinity

end Order

/-! ### Increasing operations -/

/-- An operation rounds what an increasing function of the value is, and leaves infinity as it is.
-/
structure RoundsIncreasing (f : ℚ → ℚ) (op : UnpackedFloat → UnpackedFloat) : Prop where
  nonneg : ∀ u, 0 ≤ u → 0 ≤ f u
  monotone : Monotone f
  rounds : ∀ a, IsCanonical a → RoundsTo (f (value a)) (op a)
  infinity : op (.infinity .positive) = .infinity .positive

section Increasing

variable {f : ℚ → ℚ} {op : UnpackedFloat → UnpackedFloat} {a b : UnpackedFloat}

theorem RoundsIncreasing.isNonneg (h : RoundsIncreasing f op) (ha : IsNonneg a) :
    IsNonneg (Float.Model.pack (op a)).unpack := by
  cases ha with
  | infinity =>
    rw [h.infinity]
    exact .infinity
  | finite ha => exact isNonneg_unpack_pack (h.rounds a ha).canonical

/-- **An operation that rounds an increasing function is increasing.** -/
theorem RoundsIncreasing.rankOf_le (h : RoundsIncreasing f op) (ha : IsNonneg a) (hb : IsNonneg b)
    (hle : rankOf a ≤ rankOf b) :
    rankOf (Float.Model.pack (op a)).unpack ≤ rankOf (Float.Model.pack (op b)).unpack := by
  cases hb with
  | infinity =>
    rw [h.infinity]
    exact (h.isNonneg ha).rankOf_le_infinity
  | finite hb =>
    cases ha with
    | infinity =>
      exact absurd hle (not_le_of_gt (by cases hb <;> simp [rankOf, Prod.Lex.toLex_lt_toLex]))
    | finite ha =>
      have hvalue := (rankOf_le_iff ha hb).1 hle
      have hrounded := (h.rounds a ha).value_le (h.rounds b hb) (h.nonneg _ (value_nonneg a))
        (h.monotone hvalue)
      exact rankOf_unpack_pack_le (h.rounds a ha).canonical (h.rounds b hb).canonical
        ((rankOf_le_iff (h.rounds a ha).canonical (h.rounds b hb).canonical).2 hrounded)

/-- Adding a number is increasing. -/
theorem roundsIncreasing_add {m : Nat} {e : ℤ} {hm : 0 < m}
    (h : IsCanonical (.finite .positive m e hm)) :
    RoundsIncreasing (m * 2 ^ e + ·)
      (UnpackedFloat.add Format.binary64 (.finite .positive m e hm)) where
  nonneg u hu := by positivity
  monotone u v huv := by
    dsimp only
    gcongr
  rounds a ha := roundsTo_add hm h ha
  infinity := rfl

/-- Dividing by a number is increasing. -/
theorem roundsIncreasing_div {m : Nat} {e : ℤ} (hm : 0 < m) :
    RoundsIncreasing (· / (m * 2 ^ e))
      (UnpackedFloat.div Format.binary64 · (.finite .positive m e hm)) where
  nonneg u hu := by positivity
  monotone u v huv := by
    dsimp only
    gcongr
  rounds a ha := roundsTo_div hm ha
  infinity := rfl

end Increasing

/-- **The more of a number is halved and added to a half, the larger the sum**, whatever is lost by
rounding. -/
theorem half_add_div_two_le {x y : Float} (h : Scalar.zero ≤ x) (hxy : x ≤ y) :
    half + x / nat 2 ≤ half + y / nat 2 := by
  obtain ⟨hzero, hx⟩ := isNaN_of_le h
  obtain ⟨-, hy⟩ := isNaN_of_le hxy
  have hrank : rank x ≤ rank y := (le_iff hx hy).1 hxy
  have hnonneg : IsNonneg x.toModel.unpack := zero_le_iff.1 h
  have hnonneg' : IsNonneg y.toModel.unpack :=
    zero_le_iff.1 ((le_iff hzero hy).2 (((le_iff hzero hx).1 h).trans hrank))
  obtain ⟨m, e, hm, htwo⟩ : ∃ m e hm, (nat 2 : Float).toModel.unpack = .finite .positive m e hm :=
    ⟨_, _, _, rfl⟩
  obtain ⟨m', e', hm', hhalf⟩ :
      ∃ m e hm, (half : Float).toModel.unpack = .finite .positive m e hm := ⟨_, _, _, rfl⟩
  have hdiv := roundsIncreasing_div (e := e) hm
  have hadd := roundsIncreasing_add (hhalf ▸ isCanonical_unpack hhalf)
  -- the parts of the sum are those of what dividing and adding do to parts
  have hunpack : ∀ z : Float, (half + z / nat 2).toModel.unpack =
      (Float.Model.pack (UnpackedFloat.add Format.binary64 (.finite .positive m' e' hm')
        (Float.Model.pack (UnpackedFloat.div Format.binary64 z.toModel.unpack
          (.finite .positive m e hm))).unpack)).unpack := by
    intro z
    rw [← htwo, ← hhalf]
    rfl
  have hisNaN : ∀ z : Float, IsNonneg z.toModel.unpack → (half + z / nat 2).isNaN = false := by
    intro z hz
    show (half + z / nat 2).toModel.unpack.isNaN = false
    rw [hunpack]
    exact (hadd.isNonneg (hdiv.isNonneg hz)).isNaN_eq_false
  rw [le_iff (hisNaN x hnonneg) (hisNaN y hnonneg'), rank, rank, hunpack, hunpack]
  exact hadd.rankOf_le (hdiv.isNonneg hnonneg) (hdiv.isNonneg hnonneg')
    (hdiv.rankOf_le hnonneg hnonneg' hrank)

end Double

end FactNet
