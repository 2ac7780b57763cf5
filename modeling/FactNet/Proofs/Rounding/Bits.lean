import FactNet.Decimal.Binary64
import FactNet.Proofs.Rounding.Order

/-!
# The bits of a double

The bits of a double are a sign, an exponent and a significand without its first place.  They are
the same whether they are cut out of the number that all of them make up or unpacked, and a finite
double is put together again from what is unpacked of it.

## Main results

* `Double.packComponents_unpack` — the bits of a double are put together from its parts.
* `Double.isZero_or_isFinite` — **a finite double is a zero or a number with its own exponent, and
  its parts are those.**
-/

namespace FactNet

namespace Double

open Float.Model Float.Model.UnpackedFloat
open FactNet.Decimal (Parts Magnitude hiddenBit)

/-! ### Cutting out -/

section Bits

variable (b : BitVec 64)

theorem toNat_unpackMantissa :
    (@unpackMantissa Format.binary64 b).toNat = b.toNat % hiddenBit := by
  simp [unpackMantissa, hiddenBit]

theorem toNat_unpackExponent :
    (@unpackExponent Format.binary64 b).toNat = (b.toNat >>> 52) % 2048 := by
  simp [unpackExponent]

theorem toNat_unpackSign : (@unpackSign Format.binary64 b).toNat = (b.toNat >>> 63) % 2 := by
  simp [unpackSign]

theorem toBitVec_ofBitVec (c : BitVec 1) : (Sign.ofBitVec c).toBitVec = c := by
  revert c
  decide

/-- **The bits of a double are put together from its parts.** -/
theorem packComponents_unpack :
    packComponents Format.binary64 (Sign.ofBitVec (@unpackSign Format.binary64 b))
      (@unpackExponent Format.binary64 b) (@unpackMantissa Format.binary64 b) = b := by
  apply BitVec.eq_of_toNat_eq
  rw [packComponents, toBitVec_ofBitVec, BitVec.toNat_append, BitVec.toNat_append,
    ← Nat.shiftLeft_add_eq_or_of_lt (BitVec.isLt _), ← Nat.shiftLeft_add_eq_or_of_lt (BitVec.isLt _)]
  rw [toNat_unpackMantissa, toNat_unpackExponent, toNat_unpackSign]
  have hlt : b.toNat < 2 ^ 64 := b.isLt
  simp only [Nat.shiftLeft_eq, Nat.shiftRight_eq_div_pow, hiddenBit]
  omega

end Bits

/-- A double is known by its bits. -/
theorem eq_ofModel_pack {x : Float} {a : UnpackedFloat}
    (h : UnpackedFloat.pack Format.binary64 a = x.toBits.toBitVec) : x = .ofModel (.pack a) := by
  obtain ⟨⟨bits, hvalid⟩⟩ := x
  simp only [Float.Model.pack, h]
  rfl

/-! ### The parts of a finite double -/

/-- A double is a zero, and its parts are. -/
structure IsZero (x : Float) (s : Sign) : Prop where
  eq : x = .ofModel (.pack (.zero s))
  parts : Parts.ofFloat x = ⟨s == .negative, .finite 0 (-1074)⟩

/-- A double is a number with its own exponent, and its parts are. -/
structure IsFinite (x : Float) (s : Sign) (m : Nat) (e : ℤ) (hm : 0 < m) : Prop where
  eq : x = .ofModel (.pack (.finite s m e hm))
  canonical : IsCanonical (.finite .positive m e hm)
  le : e ≤ 971
  parts : Parts.ofFloat x = ⟨s == .negative, .finite m e⟩

theorem beq_negative_ofBitVec (c : BitVec 1) :
    (c.toNat == 1) = (Sign.ofBitVec c == Sign.negative) := by
  revert c
  decide

/-- A double is put together from a sign, an exponent that is not the largest and a significand
without its first place, and its parts are read off these. -/
structure HasComponents (x : Float) (s : Sign) (exponent : BitVec 11) (mantissa : BitVec 52) :
    Prop where
  bits : packComponents Format.binary64 s exponent mantissa = x.toBits.toBitVec
  exponent_lt : exponent.toNat < 2047
  parts : Parts.ofFloat x = ⟨s == .negative,
    if exponent.toNat = 0 then .finite mantissa.toNat (-1074)
    else .finite (hiddenBit + mantissa.toNat) (exponent.toNat - 1075)⟩

/-- The exponent of a finite double is not the largest. -/
theorem unpackExponent_lt {x : Float} (hx : x.isFinite = true) :
    (@unpackExponent Format.binary64 x.toBits.toBitVec).toNat < 2047 := by
  have hfinite : (UnpackedFloat.unpack Format.binary64 x.toBits.toBitVec).isFinite = true := hx
  have hones : @unpackExponent Format.binary64 x.toBits.toBitVec ≠ -1#11 := by
    intro h
    unfold UnpackedFloat.unpack at hfinite
    dsimp only at hfinite
    rw [if_pos h] at hfinite
    split at hfinite <;> cases hfinite
  have hne : (@unpackExponent Format.binary64 x.toBits.toBitVec).toNat ≠ 2047 :=
    fun h => hones (BitVec.eq_of_toNat_eq (by rw [h]; rfl))
  have hlt : (@unpackExponent Format.binary64 x.toBits.toBitVec).toNat < 2048 := BitVec.isLt _
  omega

theorem hasComponents_unpack {x : Float} (hx : x.isFinite = true) :
    HasComponents x (Sign.ofBitVec (@unpackSign Format.binary64 x.toBits.toBitVec))
      (@unpackExponent Format.binary64 x.toBits.toBitVec)
      (@unpackMantissa Format.binary64 x.toBits.toBitVec) where
  bits := packComponents_unpack _
  exponent_lt := unpackExponent_lt hx
  parts := by
    have hlt := unpackExponent_lt hx
    show Parts.ofBits x.toBits.toBitVec.toNat = _
    unfold Parts.ofBits
    dsimp only
    rw [← toNat_unpackMantissa, ← toNat_unpackExponent, ← toNat_unpackSign,
      beq_negative_ofBitVec, if_neg (by simpa using hlt.ne)]
    simp only [beq_iff_eq]
    split <;> rfl

namespace HasComponents

variable {x : Float} {s : Sign} {exponent : BitVec 11} {mantissa : BitVec 52}

theorem isZero (h : HasComponents x s exponent mantissa) (hzero : exponent.toNat = 0)
    (hm : mantissa.toNat = 0) : IsZero x s := by
  obtain rfl : exponent = 0#11 := BitVec.eq_of_toNat_eq hzero
  obtain rfl : mantissa = 0#52 := BitVec.eq_of_toNat_eq hm
  exact ⟨eq_ofModel_pack h.bits, h.parts⟩

/-- With the lowest exponent, the significand is written without a hidden place. -/
theorem isFinite_of_exponent_eq_zero (h : HasComponents x s exponent mantissa)
    (hzero : exponent.toNat = 0) (hm : 0 < mantissa.toNat) :
    IsFinite x s mantissa.toNat (-1074) hm := by
  have hlt : mantissa.toNat < 2 ^ 52 := mantissa.isLt
  obtain rfl : exponent = 0#11 := BitVec.eq_of_toNat_eq hzero
  refine ⟨eq_ofModel_pack ?_, .finite hm (by omega) le_rfl (by simp), by norm_num, h.parts⟩
  rw [pack_of_lt s hm hlt, BitVec.ofNat_toNat, BitVec.setWidth_eq]
  exact h.bits

/-- With any other exponent, the first place of the significand is hidden. -/
theorem isFinite_of_exponent_ne_zero (h : HasComponents x s exponent mantissa)
    (hne : exponent.toNat ≠ 0) : IsFinite x s (hiddenBit + mantissa.toNat)
      (exponent.toNat - 1075) (Nat.add_pos_left (by decide) _) := by
  have hlt : mantissa.toNat < 2 ^ 52 := mantissa.isLt
  have hexponent := h.exponent_lt
  have hm : 0 < hiddenBit + mantissa.toNat := Nat.add_pos_left (by decide) _
  have hlarge : 2 ^ 52 ≤ hiddenBit + mantissa.toNat := Nat.le_add_right _ _
  have hsmall : hiddenBit + mantissa.toNat < 2 ^ 53 := by
    unfold hiddenBit
    omega
  have hsig : BitVec.ofNat 52 (hiddenBit + mantissa.toNat) = mantissa := by
    apply BitVec.eq_of_toNat_eq
    rw [BitVec.toNat_ofNat]
    unfold hiddenBit
    omega
  refine ⟨eq_ofModel_pack ?_, .finite hm hsmall (by omega) fun _ => hlarge, by omega, ?_⟩
  · rw [pack_of_le s hm hlarge hsmall (by ring) (by omega), hsig, BitVec.ofNat_toNat,
      BitVec.setWidth_eq]
    exact h.bits
  · rw [h.parts, if_neg hne]

end HasComponents

/-- **A finite double is a zero or a number with its own exponent.** -/
theorem isZero_or_isFinite {x : Float} (hx : x.isFinite = true) :
    (∃ s, IsZero x s) ∨ ∃ s m e hm, IsFinite x s m e hm := by
  have h := hasComponents_unpack hx
  by_cases hzero : (@unpackExponent Format.binary64 x.toBits.toBitVec).toNat = 0
  · rcases Nat.eq_zero_or_pos (@unpackMantissa Format.binary64 x.toBits.toBitVec).toNat with
      hm | hm
    · exact .inl ⟨_, h.isZero hzero hm⟩
    · exact .inr ⟨_, _, _, hm, h.isFinite_of_exponent_eq_zero hzero hm⟩
  · exact .inr ⟨_, _, _, _, h.isFinite_of_exponent_ne_zero hzero⟩

/-- Taking the negative of a number changes its sign. -/
theorem neg_ofModel_pack {m : Nat} {e : ℤ} {hm : 0 < m}
    (ha : IsCanonical (.finite .positive m e hm)) (he : e ≤ 971) :
    -(Float.ofModel (.pack (.finite .positive m e hm))) =
      .ofModel (.pack (.finite .negative m e hm)) := by
  have hlt : rankOf (.finite .positive m e hm) < limit := by
    rw [rankOf, limit, Prod.Lex.toLex_lt_toLex, Prod.Lex.toLex_lt_toLex]
    exact .inr ⟨rfl, .inl (by dsimp only; omega)⟩
  have hunpack := unpack_pack_of_isCanonical ha
  rw [if_pos hlt] at hunpack
  show Float.ofModel (.pack (UnpackedFloat.neg (Float.Model.pack _).unpack)) = _
  rw [hunpack]
  rfl

end Double

end FactNet
