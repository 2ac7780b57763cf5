import Mathlib
import FactNet.Proofs.Exact

/-!
# Whole numbers

Doubles round, but not whole numbers below two to the fifty-third: these have a significand that
holds all their places, so they are added, subtracted and multiplied without loss, and so are they
divided where the quotient is whole.  Of larger numbers it is only said that they are no zero,
though they may be infinite.

## Main definitions

* `Double.whole` — the parts of a double that is a whole number.
* `Scalar.ExactBelow` — whole numbers below a bound are computed with exactly.

## Main results

* `Double.roundWithAccuracy_whole` — **a whole number is rounded to itself.**
* `Double.add_whole`, `Double.sub_whole`, `Double.mul_whole`, `Double.div_whole` — so operations on
  whole numbers lose nothing.
* `Double.nat_eq` — a whole number below the bound is a double.
* `Scalar.exactBelow_float`, `Scalar.exactBelow_ereal` — **doubles compute exactly below two to the
  fifty-third, and exact numbers everywhere.**
-/

namespace FactNet

open Scalar

namespace Double

open Float.Model Float.Model.UnpackedFloat

/-! ### Packing -/

theorem toNat_one_append (m : BitVec 52) : (1#1 ++ m).toNat = 2 ^ 52 + m.toNat := by
  rw [BitVec.toNat_append, ← Nat.shiftLeft_add_eq_or_of_lt m.isLt]
  simp [Nat.shiftLeft_eq]

theorem unpackSign_packComponents (e : BitVec 11) (m : BitVec 52) :
    unpackSign (packComponents Format.binary64 .positive e m) = 0#1 := by
  simp only [unpackSign, packComponents, BitVec.extractLsb]
  rw [BitVec.extractLsb'_append_eq_of_le (by omega), BitVec.extractLsb'_append_eq_of_le (by omega)]
  rfl

/-- A number with all places of its significand is written without the first of them. -/
theorem pack_of_le (s : Sign) {m n : Nat} {e : Int} (hm : 0 < m) (h : 2 ^ 52 ≤ m)
    (h' : m < 2 ^ 53) (hn : (n : Int) = e + 1075) (hsmall : n < 2047) :
    UnpackedFloat.pack Format.binary64 (.finite s m e hm) =
      packComponents Format.binary64 s (BitVec.ofNat 11 n) (BitVec.ofNat 52 m) := by
  have hlog : m.log2 = 52 := (Nat.log2_eq_iff hm.ne').2 ⟨h, h'⟩
  have hbias : (e + (Format.binary64.exponentBias : Int) + (52 : Nat)).toNat = n := by
    have : (Format.binary64.exponentBias : Int) = 1023 := rfl
    omega
  unfold UnpackedFloat.pack
  dsimp only
  rw [hbias, hlog, if_neg (by omega), if_pos (show 52 + 1 = Format.binary64.mantissaBits from rfl)]

/-- A number with all places of its significand is read as it was written. -/
theorem unpack_pack {m : Nat} {e : Int} (hpos : 0 < m) (hm : 2 ^ 52 ≤ m) (hm' : m < 2 ^ 53)
    (he : -1074 ≤ e) (he' : e ≤ 971) :
    (Float.Model.pack (.finite .positive m e hpos)).unpack = .finite .positive m e hpos := by
  obtain ⟨b, hb⟩ : ∃ b : Nat, (b : Int) = e + 1075 := ⟨(e + 1075).toNat, by omega⟩
  have hpack := pack_of_le .positive hpos hm hm' hb (by omega)
  have hexp : (BitVec.ofNat 11 b).toNat = b := by
    rw [BitVec.toNat_ofNat, Nat.mod_eq_of_lt (by omega)]
  have hsig : (1#1 ++ BitVec.ofNat 52 m).toNat = m := by
    rw [toNat_one_append, BitVec.toNat_ofNat]
    omega
  -- the two fields that stand for something else than an exponent
  have hones : BitVec.ofNat 11 b ≠ -1#11 :=
    fun h => absurd (congrArg BitVec.toNat h) (by rw [hexp]; simp; omega)
  have hzeros : BitVec.ofNat 11 b ≠ 0#11 :=
    fun h => absurd (congrArg BitVec.toNat h) (by rw [hexp]; simp; omega)
  show UnpackedFloat.unpack Format.binary64
    (UnpackedFloat.pack Format.binary64 (.finite .positive m e hpos)) = _
  rw [hpack, UnpackedFloat.unpack]
  simp only [unpackExponent_packComponents, unpackMantissa_packComponents,
    unpackSign_packComponents, if_neg hones, if_neg hzeros, hsig, hexp]
  congr 1
  have : (Format.binary64.exponentBias : Int) = 1023 := rfl
  omega

/-! ### Rounding whole numbers -/

/-- The parts of a double that is a whole number. -/
def whole (n : Nat) : UnpackedFloat :=
  if h : 0 < n then
    .finite .positive (n * 2 ^ (52 - n.log2)) (n.log2 - 52) (Nat.mul_pos h (Nat.two_pow_pos _))
  else .zero .positive

theorem whole_of_pos {n : Nat} (h : 0 < n) : whole n =
    .finite .positive (n * 2 ^ (52 - n.log2)) (n.log2 - 52)
      (Nat.mul_pos h (Nat.two_pow_pos _)) :=
  dif_pos h

theorem log2_mul_two_pow {n : Nat} (h : 0 < n) (a : Nat) : (n * 2 ^ a).log2 = n.log2 + a := by
  refine (Nat.log2_eq_iff (Nat.mul_pos h (Nat.two_pow_pos a)).ne').2 ⟨?_, ?_⟩
  · rw [Nat.pow_add]
    exact Nat.mul_le_mul_right _ (Nat.log2_self_le h.ne')
  · rw [Nat.add_right_comm, Nat.pow_add]
    exact Nat.mul_lt_mul_of_pos_right Nat.lt_log2_self (Nat.two_pow_pos a)

/-- Places that hold nothing are dropped without loss. -/
theorem shiftRight_exact (m a : Nat) :
    ExtendedMantissa.mk (m * 2 ^ a) false false >>> a = ⟨m, false, false⟩ := by
  show a.repeat ExtendedMantissa.shiftRightOne ⟨m * 2 ^ a, false, false⟩ = _
  induction a generalizing m with
  | zero => simp [Nat.repeat]
  | succ a ih =>
    have hdouble : m * 2 ^ (a + 1) = m * 2 * 2 ^ a := by ring
    rw [Nat.repeat, hdouble, ih]
    simp [ExtendedMantissa.shiftRightOne]

theorem targetExponent_eq (t : Int) :
    Format.binary64.targetExponent t = max (t - 53) (-1074) := rfl

theorem log2_lt_53 {n : Nat} (h : 0 < n) (hn : n < 2 ^ 53) : n.log2 < 53 :=
  (Nat.log2_lt h.ne').2 hn

/-- A number without accuracy lost is shifted to its exponent by the places that are too many. -/
theorem shiftToTargetExponent_exact {m k : Nat} {e : Int}
    (h : (Format.binary64.targetExponent (totalExponent m e) - e).toNat = k) :
    shiftToTargetExponent Format.binary64 m e .exact =
      (ExtendedMantissa.mk m false false >>> k, e + k) := by
  unfold shiftToTargetExponent shiftToExponent
  dsimp only
  rw [h]
  rfl

/-- A whole number given with more places than are kept is rounded to itself. -/
theorem roundWithAccuracy_whole {n a : Nat} (h : 0 < n) (hn : n < 2 ^ 53)
    (ha : 52 ≤ a + n.log2) :
    roundWithAccuracy Format.binary64 .positive (n * 2 ^ a) (-a) .exact = whole n := by
  have hlog := log2_lt_53 h hn
  -- the first shift drops the places that are too many, and leaves the second nothing to do
  have hfirst : shiftToTargetExponent Format.binary64 (n * 2 ^ a) (-a) .exact =
      (ExtendedMantissa.mk (n * 2 ^ (52 - n.log2)) false false, (n.log2 : Int) - 52) := by
    obtain ⟨k, hk⟩ : ∃ k, a = (52 - n.log2) + k := ⟨a + n.log2 - 52, by omega⟩
    have hshift : (Format.binary64.targetExponent (totalExponent (n * 2 ^ a) (-a)) - -(a : Int)).toNat
        = k := by
      rw [targetExponent_eq, totalExponent, log2_mul_two_pow h]
      omega
    rw [shiftToTargetExponent_exact hshift]
    refine Prod.ext ?_ (by dsimp only; omega)
    show ExtendedMantissa.mk (n * 2 ^ a) false false >>> k = _
    rw [hk, Nat.pow_add, ← Nat.mul_assoc, shiftRight_exact]
  have hsecond : shiftToTargetExponent Format.binary64 (n * 2 ^ (52 - n.log2)) (n.log2 - 52) .exact =
      (ExtendedMantissa.mk (n * 2 ^ (52 - n.log2)) false false, (n.log2 : Int) - 52) := by
    have hshift : (Format.binary64.targetExponent (totalExponent (n * 2 ^ (52 - n.log2))
        ((n.log2 : Int) - 52)) - ((n.log2 : Int) - 52)).toNat = 0 := by
      rw [targetExponent_eq, totalExponent, log2_mul_two_pow h]
      omega
    rw [shiftToTargetExponent_exact hshift]
    exact Prod.ext rfl (by dsimp only; omega)
  unfold roundWithAccuracy
  rw [hfirst]
  dsimp only
  have hrounded : (ExtendedMantissa.mk (n * 2 ^ (52 - n.log2)) false false).roundedMantissa =
      n * 2 ^ (52 - n.log2) := rfl
  rw [hrounded, hsecond]
  dsimp only
  rw [dif_neg (Nat.mul_pos h (Nat.two_pow_pos _)).ne', whole_of_pos h]

/-- A whole number is rounded to itself. -/
theorem round_whole {n : Nat} (h : 0 < n) (hn : n < 2 ^ 53) (a : Nat) :
    UnpackedFloat.round Format.binary64 .positive (n * 2 ^ a) (-a) = whole n := by
  have hlog := log2_lt_53 h hn
  obtain ⟨k, hk⟩ : ∃ k, k = 52 - n.log2 - a := ⟨_, rfl⟩
  have hshift : (-(a : Int) - Format.binary64.targetExponent (totalExponent (n * 2 ^ a) (-a))).toNat
      = k := by
    rw [targetExponent_eq, totalExponent, log2_mul_two_pow h]
    omega
  unfold UnpackedFloat.round decreaseExponent
  dsimp only
  rw [hshift, Nat.shiftLeft_eq, Nat.mul_assoc, ← Nat.pow_add]
  have hexp : -(a : Int) - k = -((a + k : Nat) : Int) := by omega
  rw [hexp, roundWithAccuracy_whole h hn (by omega)]

theorem normalize_whole (n : Nat) (hn : n < 2 ^ 53) (a : Nat) :
    UnpackedFloat.normalize Format.binary64 ((n * 2 ^ a : Nat) : Int) (-a) .positive = whole n := by
  rcases Nat.eq_zero_or_pos n with rfl | h
  · rw [Nat.zero_mul]
    rfl
  · have hgt : compare ((n * 2 ^ a : Nat) : Int) 0 = .gt :=
      compare_gt_iff_gt.2 (Int.natCast_pos.2 (Nat.mul_pos h (Nat.two_pow_pos a)))
    rw [UnpackedFloat.normalize, hgt]
    exact round_whole h hn a

/-! ### Computing with whole numbers -/

variable {m n : Nat}

theorem le_log2_mul (hm : 0 < m) (hn : 0 < n) : m.log2 + n.log2 ≤ (m * n).log2 := by
  rw [Nat.le_log2 (Nat.mul_pos hm hn).ne', Nat.pow_add]
  exact Nat.mul_le_mul (Nat.log2_self_le hm.ne') (Nat.log2_self_le hn.ne')

theorem log2_mul_le (hm : 0 < m) (hn : 0 < n) : (m * n).log2 ≤ m.log2 + n.log2 + 1 := by
  have hlt : m * n < 2 ^ (m.log2 + n.log2 + 2) := by
    have hpow : 2 ^ (m.log2 + n.log2 + 2) = 2 ^ (m.log2 + 1) * 2 ^ (n.log2 + 1) := by
      rw [← Nat.pow_add]
      congr 1
      omega
    rw [hpow]
    exact Nat.mul_lt_mul'' Nat.lt_log2_self Nat.lt_log2_self
  have := (Nat.log2_lt (Nat.mul_pos hm hn).ne').2 hlt
  omega

/-- Two significands brought to the smaller of two exponents. -/
theorem decreaseExponent_whole (k : Nat) (hm : k ≤ m.log2) (hm' : m.log2 < 53) :
    (decreaseExponent (m * 2 ^ (52 - m.log2)) ((m.log2 : Int) - 52) ((k : Int) - 52)).1 =
      m * 2 ^ (52 - k) := by
  unfold decreaseExponent
  have hshift : ((m.log2 : Int) - 52 - ((k : Int) - 52)).toNat = m.log2 - k := by omega
  dsimp only
  rw [hshift, Nat.shiftLeft_eq, Nat.mul_assoc, ← Nat.pow_add]
  congr 2
  omega

theorem add_whole (h : m + n < 2 ^ 53) :
    UnpackedFloat.add Format.binary64 (whole m) (whole n) = whole (m + n) := by
  rcases Nat.eq_zero_or_pos m with rfl | hm
  · rw [Nat.zero_add]
    rcases Nat.eq_zero_or_pos n with rfl | hn
    · rfl
    · rw [whole_of_pos hn]
      rfl
  · rcases Nat.eq_zero_or_pos n with rfl | hn
    · rw [Nat.add_zero, whole_of_pos hm]
      rfl
    · have hlm := log2_lt_53 hm (by omega)
      have hln := log2_lt_53 hn (by omega)
      obtain ⟨k, hk⟩ : ∃ k, k = min m.log2 n.log2 := ⟨_, rfl⟩
      have hmin : min ((m.log2 : Int) - 52) ((n.log2 : Int) - 52) = (k : Int) - 52 := by omega
      -- the significands are added at the smaller of the two exponents, where both have all places
      rw [whole_of_pos hm, whole_of_pos hn, UnpackedFloat.add]
      dsimp only
      rw [hmin, decreaseExponent_whole k (by omega) hlm, decreaseExponent_whole k (by omega) hln]
      have hsum : Sign.positive.apply ((m * 2 ^ (52 - k) : Nat) : Int) +
          Sign.positive.apply ((n * 2 ^ (52 - k) : Nat) : Int) =
            (((m + n) * 2 ^ (52 - k) : Nat) : Int) := by
        rw [Nat.add_mul]
        rfl
      have hexp : (k : Int) - 52 = -((52 - k : Nat) : Int) := by omega
      rw [hsum, hexp, normalize_whole _ h]

theorem sub_whole (hle : n ≤ m) (h : m < 2 ^ 53) :
    UnpackedFloat.sub Format.binary64 (whole m) (whole n) = whole (m - n) := by
  rcases Nat.eq_zero_or_pos n with rfl | hn
  · rcases Nat.eq_zero_or_pos m with rfl | hm
    · rfl
    · rw [Nat.sub_zero, whole_of_pos hm]
      rfl
  · have hm : 0 < m := by omega
    have hlm := log2_lt_53 hm h
    have hln := log2_lt_53 hn (by omega)
    obtain ⟨k, hk⟩ : ∃ k, k = min m.log2 n.log2 := ⟨_, rfl⟩
    have hmin : min ((m.log2 : Int) - 52) ((n.log2 : Int) - 52) = (k : Int) - 52 := by omega
    rw [whole_of_pos hm, whole_of_pos hn, UnpackedFloat.sub]
    dsimp only
    rw [hmin, decreaseExponent_whole k (by omega) hlm, decreaseExponent_whole k (by omega) hln]
    have hdiff : Sign.positive.apply ((m * 2 ^ (52 - k) : Nat) : Int) -
        Sign.positive.apply ((n * 2 ^ (52 - k) : Nat) : Int) =
          (((m - n) * 2 ^ (52 - k) : Nat) : Int) := by
      rw [Nat.sub_mul, Nat.cast_sub (Nat.mul_le_mul_right _ hle)]
      rfl
    have hexp : (k : Int) - 52 = -((52 - k : Nat) : Int) := by omega
    rw [hdiff, hexp, normalize_whole _ (by omega)]

theorem mul_whole (h : m * n < 2 ^ 53) :
    UnpackedFloat.mul Format.binary64 (whole m) (whole n) = whole (m * n) := by
  rcases Nat.eq_zero_or_pos m with rfl | hm
  · rw [Nat.zero_mul]
    rcases Nat.eq_zero_or_pos n with rfl | hn
    · rfl
    · rw [whole_of_pos hn]
      rfl
  · rcases Nat.eq_zero_or_pos n with rfl | hn
    · rw [whole_of_pos hm]
      rfl
    · have hlm := log2_lt_53 hm (lt_of_le_of_lt (Nat.le_mul_of_pos_right m hn) h)
      have hln := log2_lt_53 hn (lt_of_le_of_lt (Nat.le_mul_of_pos_left n hm) h)
      have hle := le_log2_mul hm hn
      rw [whole_of_pos hm, whole_of_pos hn, UnpackedFloat.mul]
      -- the product has more places than are kept, but the ones too many hold nothing
      have hprod : m * 2 ^ (52 - m.log2) * (n * 2 ^ (52 - n.log2)) =
          m * n * 2 ^ (104 - m.log2 - n.log2) := by
        rw [Nat.mul_mul_mul_comm, ← Nat.pow_add]
        congr 2
        omega
      have hexp : (m.log2 : Int) - 52 + ((n.log2 : Int) - 52) =
          -((104 - m.log2 - n.log2 : Nat) : Int) := by omega
      rw [hprod, hexp]
      exact roundWithAccuracy_whole (Nat.mul_pos hm hn) h (by omega)

/-- The dividend is given fifty-three more places, and the quotient leaves no remainder. -/
theorem divCore_whole (hm : 0 < m) (hn : 0 < n) (hn' : n < 2 ^ 53) (h : m * n < 2 ^ 53) :
    divCore Format.binary64 (m * n * 2 ^ (52 - (m * n).log2)) (((m * n).log2 : Int) - 52)
        (n * 2 ^ (52 - n.log2)) ((n.log2 : Int) - 52) =
      (m * 2 ^ (53 + n.log2 - (m * n).log2), -((53 + n.log2 - (m * n).log2 : Nat) : Int),
        .exact) := by
  have hmn := Nat.mul_pos hm hn
  have hl := log2_lt_53 hmn h
  have hln := log2_lt_53 hn hn'
  have hle := le_log2_mul hm hn
  have hge := log2_mul_le hm hn
  have htarget : min (((m * n).log2 : Int) - 52 - ((n.log2 : Int) - 52))
      (Format.binary64.targetExponent
        (totalExponent (m * n * 2 ^ (52 - (m * n).log2)) (((m * n).log2 : Int) - 52) -
          totalExponent (n * 2 ^ (52 - n.log2)) ((n.log2 : Int) - 52))) =
            -((53 + n.log2 - (m * n).log2 : Nat) : Int) := by
    rw [targetExponent_eq, totalExponent, totalExponent, log2_mul_two_pow hmn,
      log2_mul_two_pow hn]
    omega
  have hshift : (((m * n).log2 : Int) - 52 - ((n.log2 : Int) - 52) -
      -((53 + n.log2 - (m * n).log2 : Nat) : Int)).toNat = 53 := by omega
  have hprod : m * n * 2 ^ (52 - (m * n).log2) * 2 ^ 53 =
      m * 2 ^ (53 + n.log2 - (m * n).log2) * (n * 2 ^ (52 - n.log2)) := by
    rw [Nat.mul_mul_mul_comm, ← Nat.pow_add, Nat.mul_assoc (m * n), ← Nat.pow_add]
    congr 2
    omega
  have hpos : 0 < n * 2 ^ (52 - n.log2) := Nat.mul_pos hn (Nat.two_pow_pos _)
  unfold divCore
  dsimp only
  rw [htarget, hshift, Nat.shiftLeft_eq, hprod, Nat.mul_div_cancel _ hpos, Nat.mul_mod_left]
  rfl

theorem div_whole (hn : 0 < n) (hn' : n < 2 ^ 53) (h : m * n < 2 ^ 53) :
    UnpackedFloat.div Format.binary64 (whole (m * n)) (whole n) = whole m := by
  rcases Nat.eq_zero_or_pos m with rfl | hm
  · rw [Nat.zero_mul, whole_of_pos hn]
    rfl
  · have hmn := Nat.mul_pos hm hn
    have hm' : m < 2 ^ 53 := lt_of_le_of_lt (Nat.le_mul_of_pos_right m hn) h
    have hl := log2_lt_53 hmn h
    have hge := log2_mul_le hm hn
    rw [whole_of_pos hmn, whole_of_pos hn, UnpackedFloat.div, divCore_whole hm hn hn' h]
    exact roundWithAccuracy_whole hm hm' (by omega)

/-! ### Doubles that are whole numbers -/

theorem unpack_whole (hn : n < 2 ^ 53) : (Float.Model.pack (whole n)).unpack = whole n := by
  rcases Nat.eq_zero_or_pos n with rfl | h
  · rfl
  · have hlog := log2_lt_53 h hn
    have hsig : (n * 2 ^ (52 - n.log2)).log2 = 52 := by
      rw [log2_mul_two_pow h]
      omega
    obtain ⟨hle, hlt⟩ := (Nat.log2_eq_iff (Nat.mul_pos h (Nat.two_pow_pos _)).ne').1 hsig
    rw [whole_of_pos h]
    exact unpack_pack _ hle hlt (by omega) (by omega)

/-- A word below the bound is a double. -/
theorem toFloat_toUInt64 (hn : n < 2 ^ 53) :
    n.toUInt64.toFloat = .ofModel (.pack (whole n)) := by
  have htoNat : n.toUInt64.toNat = n := by
    rw [Nat.toUInt64, UInt64.toNat_ofNat', Nat.mod_eq_of_lt (by omega)]
  have hnormalize := normalize_whole n hn 0
  rw [Nat.pow_zero, Nat.mul_one] at hnormalize
  show Float.ofModel (.pack (UnpackedFloat.normalize Format.binary64
    ((n.toUInt64.toNat : Nat) : Int) 0 .positive)) = _
  rw [htoNat]
  exact congrArg (fun x => Float.ofModel (.pack x)) hnormalize

/-- **A whole number below the bound is a double.** -/
theorem nat_eq (hn : n < 2 ^ 53) : (nat n : Float) = .ofModel (.pack (whole n)) := by
  have hone : (Float.ofBits 0x3FF0000000000000) = .ofModel (.pack (whole 1)) := by decide
  have hnat : (nat n : Float) = n.toUInt64.toFloat * Float.ofBits 0x3FF0000000000000 := by
    show Float.ofScientific n false 0 = _
    rw [Float.ofScientific, dif_pos ⟨hn, by omega⟩]
    rfl
  rw [hnat, toFloat_toUInt64 hn, hone]
  show Float.ofModel (.pack (UnpackedFloat.mul Format.binary64 (Float.Model.pack (whole n)).unpack
    (Float.Model.pack (whole 1)).unpack)) = _
  rw [unpack_whole hn, unpack_whole (by omega), mul_whole (by omega), Nat.mul_one]

/-- An operation that takes whole numbers to a whole number does so in doubles. -/
theorem op_nat {k : Nat} {f : Float → Float → Float}
    {op : UnpackedFloat → UnpackedFloat → UnpackedFloat} (h : op (whole m) (whole n) = whole k)
    (hm : m < 2 ^ 53) (hn : n < 2 ^ 53) (hk : k < 2 ^ 53)
    (hf : ∀ x y, f x y = .ofModel (.pack (op x.toModel.unpack y.toModel.unpack))) :
    f (nat m) (nat n) = nat k := by
  rw [hf, nat_eq hm, nat_eq hn, nat_eq hk]
  show Float.ofModel (.pack (op (Float.Model.pack (whole m)).unpack
    (Float.Model.pack (whole n)).unpack)) = _
  rw [unpack_whole hm, unpack_whole hn, h]

/-! ### Large numbers -/

theorem mantissa_shiftRight (m a : Nat) (r s : Bool) :
    (ExtendedMantissa.mk m r s >>> a).mantissa = m / 2 ^ a := by
  show (a.repeat ExtendedMantissa.shiftRightOne ⟨m, r, s⟩).mantissa = m / 2 ^ a
  induction a with
  | zero => simp [Nat.repeat]
  | succ a ih =>
    rw [Nat.repeat, ExtendedMantissa.shiftRightOne, ih, Nat.div_div_eq_div_mul, ← Nat.pow_succ]

/-- Rounding adds one at most. -/
theorem roundedMantissa_bounds (x : ExtendedMantissa) :
    x.mantissa ≤ x.roundedMantissa ∧ x.roundedMantissa ≤ x.mantissa + 1 := by
  obtain ⟨m, r, s⟩ := x
  cases r <;> cases s <;>
    simp [ExtendedMantissa.roundedMantissa, ExtendedMantissa.accuracy, Accuracy.roundToNearestEven]
  omega

/-- A significand with too many places is shifted until it has all places. -/
theorem exists_shiftToTargetExponent {e : Int} (hm : 2 ^ 53 ≤ m) (he : -53 ≤ e) :
    ∃ (x : ExtendedMantissa) (k : Nat),
      shiftToTargetExponent Format.binary64 m e .exact = (x, e + k) ∧ 2 ^ 52 ≤ x.mantissa ∧
        x.mantissa < 2 ^ 53 := by
  have hpos : m ≠ 0 := by omega
  have hlog : 53 ≤ m.log2 := (Nat.le_log2 hpos).2 hm
  obtain ⟨k, hk⟩ : ∃ k, m.log2 = 52 + k := ⟨m.log2 - 52, by omega⟩
  have hshift : (Format.binary64.targetExponent (totalExponent m e) - e).toNat = k := by
    rw [targetExponent_eq, totalExponent]
    omega
  refine ⟨ExtendedMantissa.mk m false false >>> k, k, shiftToTargetExponent_exact hshift, ?_, ?_⟩
  · rw [mantissa_shiftRight, Nat.le_div_iff_mul_le (Nat.two_pow_pos k), ← Nat.pow_add, ← hk]
    exact Nat.log2_self_le hpos
  · rw [mantissa_shiftRight, Nat.div_lt_iff_lt_mul (Nat.two_pow_pos k), ← Nat.pow_add]
    exact lt_of_lt_of_eq Nat.lt_log2_self (by rw [hk]; congr 1; omega)

/-- After rounding, a second shift drops a place if rounding has added one. -/
theorem exists_shiftToTargetExponent_rounded {n : Nat} {e : Int} (hupper : n ≤ 2 ^ 53)
    (hlowest : -1074 ≤ e) (hlower : -1074 < e → 2 ^ 52 ≤ n) : ∃ y j : Nat,
      shiftToTargetExponent Format.binary64 n e .exact =
        (ExtendedMantissa.mk y false false, e + j) ∧ n = y * 2 ^ j ∧ y < 2 ^ 53 ∧
        (-1074 < e + j → 2 ^ 52 ≤ y) := by
  rcases hupper.lt_or_eq with hlt | heq
  · refine ⟨n, 0, shiftToTargetExponent_exact (k := 0) ?_, by simp, hlt, by simpa using hlower⟩
    have hlog : n.log2 < 53 := by
      rcases Nat.eq_zero_or_pos n with h0 | hpos
      · rw [h0]
        decide
      · exact log2_lt_53 hpos hlt
    rw [targetExponent_eq, totalExponent]
    omega
  · refine ⟨2 ^ 52, 1, ?_, heq, by norm_num, fun _ => le_refl _⟩
    rw [heq]
    refine shiftToTargetExponent_exact (k := 1) ?_
    rw [targetExponent_eq, totalExponent, Nat.log2_two_pow]
    omega

/-- A significand with too many places is rounded to one that has all places. -/
theorem exists_roundWithAccuracy {e : Int} (hm : 2 ^ 53 ≤ m) (he : -53 ≤ e) :
    ∃ m' e' h, roundWithAccuracy Format.binary64 .positive m e .exact = .finite .positive m' e' h ∧
      2 ^ 52 ≤ m' ∧ m' < 2 ^ 53 ∧ e ≤ e' := by
  obtain ⟨x, k, hx, hle, hlt⟩ := exists_shiftToTargetExponent hm he
  obtain ⟨hlo, hhi⟩ := roundedMantissa_bounds x
  have hupper : x.roundedMantissa ≤ 2 ^ 53 := by omega
  obtain ⟨y, j, hy, -, hsmall, hlarge⟩ := exists_shiftToTargetExponent_rounded hupper
    (show -1074 ≤ e + k by omega) fun _ => hle.trans hlo
  have hall : 2 ^ 52 ≤ y := hlarge (by omega)
  have hne : y ≠ 0 := by omega
  refine ⟨y, e + k + j, Nat.pos_of_ne_zero hne, ?_, hall, hsmall, by omega⟩
  unfold roundWithAccuracy
  rw [hx]
  dsimp only
  rw [hy]
  exact dif_neg hne

theorem ofScientific_zero (h : 0 < n) : UnpackedFloat.ofScientific Format.binary64 n 0 =
    roundWithAccuracy Format.binary64 .positive (n * 2 ^ 53) (-53) .exact := by
  have hbig : ¬(0 : Int) > 2 ^ Format.binary64.exponentBits := by decide
  have hsmall : ¬(0 : Int) < -((2 ^ Format.binary64.exponentBits : Int) + n.log2) := by
    have : (0 : Int) ≤ 2 ^ Format.binary64.exponentBits := by decide
    omega
  have hprod : n <<< Format.binary64.mantissaBits * 10 ^ (0 : Int).toNat = n * 2 ^ 53 := by
    rw [Int.toNat_zero, Nat.pow_zero, Nat.mul_one, Nat.shiftLeft_eq]
    rfl
  rw [UnpackedFloat.ofScientific, dif_neg h.ne', if_neg hbig, if_neg hsmall, if_pos (le_refl 0),
    UnpackedFloat.mul, hprod]
  rfl

/-- Whatever its size, a number above zero is no zero, though it may be infinite. -/
theorem unpack_nat (h : 0 < n) : (nat n : Float).toModel.unpack = .infinity .positive ∨
    ∃ m e hm, (nat n : Float).toModel.unpack = .finite .positive m e hm := by
  rcases Nat.lt_or_ge n (2 ^ 53) with hn | hn
  · rw [nat_eq hn]
    exact .inr ⟨_, _, _, (unpack_whole hn).trans (whole_of_pos h)⟩
  · obtain ⟨m, e, hm, hround, hle, hlt, he⟩ :=
      exists_roundWithAccuracy (m := n * 2 ^ 53) (by omega) (le_refl (-53))
    have hnat : (nat n : Float) = .ofModel (.pack (.finite .positive m e hm)) := by
      have hlarge : ¬(n < 2 ^ 53 ∧ 0 ≤ 22) := by omega
      rw [← hround, ← ofScientific_zero h]
      show Float.ofScientific n false 0 = _
      rw [Float.ofScientific, dif_neg hlarge]
      rfl
    rw [hnat]
    -- an exponent past the last one is written as infinity
    rcases Int.lt_or_le 971 e with hbig | hsmall
    · left
      have hlog : m.log2 = 52 := (Nat.log2_eq_iff hm.ne').2 ⟨hle, hlt⟩
      have hpack : UnpackedFloat.pack Format.binary64 (.finite .positive m e hm) =
          packedInfinity Format.binary64 .positive := by
        have hbias : (Format.binary64.exponentBias : Int) = 1023 := rfl
        unfold UnpackedFloat.pack
        dsimp only
        rw [if_pos]
        have : 2 ^ Format.binary64.exponentBits = 2048 := rfl
        have : Format.binary64.mantissaBitsWithoutImplicit = 52 := rfl
        omega
      show UnpackedFloat.unpack Format.binary64
        (UnpackedFloat.pack Format.binary64 (.finite .positive m e hm)) = _
      rw [hpack]
      rfl
    · exact .inr ⟨m, e, hm, unpack_pack hm hle hlt (by omega) hsmall⟩

theorem zero_div (h : 0 < n) : (nat 0 / nat n : Float) = nat 0 := by
  have hzero : (nat 0 : Float) = .ofModel (.pack (whole 0)) := nat_eq (by omega)
  have hdiv : (nat 0 / nat n : Float) = .ofModel (.pack (.div Format.binary64 (.zero .positive)
      (nat n : Float).toModel.unpack)) := by
    rw [hzero]
    rfl
  rw [hdiv, hzero]
  rcases unpack_nat h with heq | ⟨m, e, hm, heq⟩
  · rw [heq]
    rfl
  · rw [heq]
    rfl

end Double

/-- Whole numbers below a bound are computed with exactly, zero is divided by a number of any size,
and zero and one are left as they are when a number is put between them. -/
structure Scalar.ExactBelow (α : Type) [Scalar α] (bound : Nat) : Prop where
  add : ∀ {m n : Nat}, m + n < bound → (nat m + nat n : α) = nat (m + n)
  sub : ∀ {m n : Nat}, n ≤ m → m < bound → (nat m - nat n : α) = nat (m - n)
  mul : ∀ {m n : Nat}, m < bound → n < bound → m * n < bound → (nat m * nat n : α) = nat (m * n)
  div : ∀ {m n : Nat}, 0 < n → n < bound → m * n < bound → (nat (m * n) / nat n : α) = nat m
  zero_div : ∀ {n : Nat}, 0 < n → (nat 0 / nat n : α) = nat 0
  clamp : ∀ b : Bool, clampUnit (nat b.toNat : α) = nat b.toNat

/-- Doubles compute exactly with whole numbers below two to the fifty-third. -/
theorem Scalar.exactBelow_float : ExactBelow Float (2 ^ 53) where
  add {m n} h :=
    Double.op_nat (Double.add_whole h) (by omega) (by omega) h fun _ _ => rfl
  sub {m n} hle h :=
    Double.op_nat (Double.sub_whole hle h) h (by omega) (by omega) fun _ _ => rfl
  mul {m n} hm hn h :=
    Double.op_nat (Double.mul_whole h) hm hn h fun _ _ => rfl
  div {m n} hpos hn h :=
    Double.op_nat (Double.div_whole hpos hn h) h hn
      (lt_of_le_of_lt (Nat.le_mul_of_pos_right m hpos) h) fun _ _ => rfl
  zero_div hpos := Double.zero_div hpos
  clamp b := by
    cases b
    · decide
    · decide

/-- Exact numbers compute exactly with all of them. -/
theorem Scalar.exactBelow_ereal (bound : Nat) : ExactBelow EReal bound where
  add {m n} _ := by simp only [nat_ereal, ← EReal.coe_add, Nat.cast_add]
  sub {m n} hle _ := by simp only [nat_ereal, ← EReal.coe_sub, Nat.cast_sub hle]
  mul {m n} _ _ _ := by simp only [nat_ereal, ← EReal.coe_mul, Nat.cast_mul]
  div {m n} hpos _ _ := by
    rw [nat_ereal, nat_ereal, nat_ereal, ← EReal.coe_div, Nat.cast_mul,
      mul_div_cancel_right₀ _ (Nat.cast_ne_zero.2 hpos.ne')]
  zero_div _ := by rw [nat_ereal, nat_ereal, Nat.cast_zero, ← EReal.coe_div, zero_div]
  clamp b := by
    cases b <;> simp [clampUnit, least, greatest]

end FactNet
