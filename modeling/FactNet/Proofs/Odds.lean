import FactNet.LogProb
import FactNet.Proofs.Factor.Bounds
import FactNet.Proofs.Ranked
import FactNet.Proofs.Rounding.Order

/-!
# Probabilities of scores

A score is a log-odds, and the probability with these odds is a number if the score is one.  Over
doubles this rests on what is known of the exponential: that of a number is a number, and below zero
it lies between zero and one.  Then nothing is divided that is infinite, and where zero is divided
it is divided by one.

The score of a fact is made from a probability, which is halved and added to a half.  It is not
smaller where the probability is larger.  For doubles that is so because rounding keeps the order of
numbers that are not below zero, as probabilities are not.

Over exact numbers nothing is rounded, and the probability tells the log-odds.

## Main definitions

* `Scalar.RankedOdds` — numbers are ranked, and give probabilities that are numbers.
* `Scalar.RankedScores` — and scores of facts are in the order of the probabilities.

## Main results

* `Double.isNaN_unpack_pack`, `Double.isNaN_add`, `Double.isNaN_div` — when a double is a number.
* `Double.isNaN_sigmoid` — **the probability of a score that is a number is a number.**
* `Double.zero_le_sigmoid` — the probability of a score is not below zero.
* `LogProb.strictMono_sigmoid` — **the higher an exact score, the more probable.**
* `Scalar.rankedOdds_ereal`, `Scalar.rankedOdds_float`, `Scalar.rankedScores_ereal`,
  `Scalar.rankedScores_float` — this holds of exact numbers and of doubles.
-/

namespace FactNet

open Scalar

namespace Double

open Float.Model Float.Model.UnpackedFloat

/-! ### Numbers -/

/-- An exponent that is not that of infinity is that of a number. -/
theorem isNaN_unpack_packComponents (s : Sign) {e : BitVec 11} (he : e ≠ -1#11) (m : BitVec 52) :
    (UnpackedFloat.unpack Format.binary64 (packComponents Format.binary64 s e m)).isNaN =
      false := by
  unfold UnpackedFloat.unpack
  simp only [unpackExponent_packComponents]
  rw [if_neg he]
  split
  · split <;> rfl
  · rfl

/-- A number that is packed stays one. -/
theorem isNaN_unpack_pack {f : UnpackedFloat} (h : f.isNaN = false) :
    (Float.Model.pack f).unpack.isNaN = false := by
  show (UnpackedFloat.unpack Format.binary64 (UnpackedFloat.pack Format.binary64 f)).isNaN = false
  cases f with
  | notANumber => cases h
  | infinity s => cases s <;> rfl
  | zero s => cases s <;> rfl
  | finite s m e hm =>
    unfold UnpackedFloat.pack
    dsimp only
    split
    · cases s <;> rfl
    · next hsmall =>
      split
      · refine isNaN_unpack_packComponents s (fun heq => hsmall ?_) _
        have hall := congrArg BitVec.toNat heq
        simp only [BitVec.toNat_ofNat, BitVec.toNat_neg] at hall
        omega
      · exact isNaN_unpack_packComponents s (by decide) _

theorem isNaN_roundWithAccuracy (s : Sign) (m : Nat) (e : Int) (a : Accuracy) :
    (roundWithAccuracy Format.binary64 s m e a).isNaN = false := by
  unfold roundWithAccuracy
  dsimp only
  split <;> rfl

/-- The sum of a finite number and any number is a number. -/
theorem isNaN_add {s : Sign} {m : Nat} {e : Int} {hm : 0 < m} {b : UnpackedFloat}
    (hb : b.isNaN = false) :
    (UnpackedFloat.add Format.binary64 (.finite s m e hm) b).isNaN = false := by
  cases b with
  | notANumber => cases hb
  | infinity s' => rfl
  | zero s' => rfl
  | finite s' m' e' hm' =>
    unfold UnpackedFloat.add UnpackedFloat.normalize UnpackedFloat.round
    dsimp only
    split
    · exact isNaN_roundWithAccuracy ..
    · rfl
    · exact isNaN_roundWithAccuracy ..

/-- A quotient of numbers is a number if the dividend is not infinite, and not zero unless the
divisor is something else. -/
theorem isNaN_div {a b : UnpackedFloat} (ha : a.isNaN = false) (hb : b.isNaN = false)
    (hinf : ∀ s, a ≠ .infinity s) (hzero : ∀ s, a = .zero s → ∀ s', b ≠ .zero s') :
    (UnpackedFloat.div Format.binary64 a b).isNaN = false := by
  cases a with
  | notANumber => cases ha
  | infinity s => exact absurd rfl (hinf s)
  | zero s =>
    cases b with
    | notANumber => cases hb
    | zero s' => exact absurd rfl (hzero s rfl s')
    | infinity s' => rfl
    | finite s' m e h => rfl
  | finite s m e h =>
    cases b with
    | notANumber => cases hb
    | zero s' => rfl
    | infinity s' => rfl
    | finite s' m e h => exact isNaN_roundWithAccuracy ..

/-- What is no number is not less than any double. -/
theorem isNaN_left_of_lt {x y : Float} (h : x < y) : x.isNaN = false := by
  have hlt : x < y ↔ (UnpackedFloat.compare x.toModel.unpack y.toModel.unpack == some .lt) = true :=
    decide_eq_true_iff
  exact (isNaN_of_compare (eq_of_beq (hlt.1 h))).1

theorem isNaN_neg {x : Float} (hx : x.isNaN = false) : (-x).isNaN = false := by
  have hunpack : x.toModel.unpack.isNaN = false := hx
  show (Float.Model.pack (UnpackedFloat.neg x.toModel.unpack)).unpack.isNaN = false
  refine isNaN_unpack_pack ?_
  cases hu : x.toModel.unpack with
  | notANumber => rw [hu] at hunpack; cases hunpack
  | infinity s => rfl
  | zero s => rfl
  | finite s m e h => rfl

/-! ### One more than a number -/

theorem unpack_one : ∃ m e h, (one : Float).toModel.unpack = .finite .positive m e h :=
  ⟨_, _, _, rfl⟩

theorem isNaN_one_add {z : Float} (hz : z.isNaN = false) : (one + z).isNaN = false := by
  obtain ⟨m, e, h, hone⟩ := unpack_one
  show (Float.Model.pack (UnpackedFloat.add Format.binary64 (one : Float).toModel.unpack
    z.toModel.unpack)).unpack.isNaN = false
  rw [hone]
  exact isNaN_unpack_pack (isNaN_add hz)

/-- One more than zero is not zero. -/
theorem one_add_ne_zero {z : Float} {s : Sign} (hz : z.toModel.unpack = .zero s) (s' : Sign) :
    (one + z).toModel.unpack ≠ .zero s' := by
  have hsum : (one + z).toModel.unpack = (Float.Model.pack (UnpackedFloat.add Format.binary64
      (one : Float).toModel.unpack z.toModel.unpack)).unpack := rfl
  rw [hsum, hz]
  cases s <;> exact fun h => by cases h

/-! ### The probability of a score -/

/-- What lies between zero and one is not infinite. -/
theorem unpack_ne_infinity {z : Float} (hz : z.isNaN = false) (h0 : Scalar.zero ≤ z) (h1 : z ≤ one)
    (s : Sign) : z.toModel.unpack ≠ .infinity s := by
  intro hinf
  have hlow : rank Scalar.zero ≤ rank z := (le_iff rfl hz).1 h0
  have hhigh : rank z ≤ rank one := (le_iff hz rfl).1 h1
  have hzero : rank Scalar.zero = toLex (0, toLex (0, 0)) := rfl
  obtain ⟨m, e, h, hone⟩ := unpack_one
  have hone : rank one = toLex (1, toLex (e, (m : ℤ))) := by rw [rank, hone]; rfl
  cases s with
  | negative =>
    have hrank : rank z = toLex (-2, toLex (0, 0)) := by rw [rank, hinf]; rfl
    rw [hzero, hrank, Prod.Lex.toLex_le_toLex] at hlow
    omega
  | positive =>
    have hrank : rank z = toLex (2, toLex (0, 0)) := by rw [rank, hinf]; rfl
    rw [hone, hrank, Prod.Lex.toLex_le_toLex] at hhigh
    omega

/-- **The probability of a score that is a number is a number**, if the exponential of a number is
one, and that of a number below zero lies between zero and one. -/
theorem isNaN_sigmoid (hexp : ∀ x : Float, x.isNaN = false → (exp x).isNaN = false)
    (hunit : ∀ x : Float, x < Scalar.zero → Scalar.zero ≤ exp x ∧ exp x ≤ one) {x : Float}
    (hx : x.isNaN = false) : (LogProb.sigmoid x).isNaN = false := by
  have hdiv : ∀ a b : Float, (a / b).isNaN = (Float.Model.pack (UnpackedFloat.div Format.binary64
      a.toModel.unpack b.toModel.unpack)).unpack.isNaN := fun _ _ => rfl
  unfold LogProb.sigmoid
  split
  · have hsum := isNaN_one_add (hexp _ (isNaN_neg hx))
    obtain ⟨m, e, h, hone⟩ := unpack_one
    rw [hdiv, hone]
    exact isNaN_unpack_pack (isNaN_div rfl hsum (fun s h => by cases h) fun s h => by cases h)
  · next hneg =>
    have hlt : x < Scalar.zero := by
      rw [lt_iff hx rfl]
      exact lt_of_not_ge fun hle => hneg ((le_iff rfl hx).2 hle)
    have hz := hexp x hx
    obtain ⟨h0, h1⟩ := hunit x hlt
    rw [hdiv]
    exact isNaN_unpack_pack (isNaN_div hz (isNaN_one_add hz) (unpack_ne_infinity hz h0 h1)
      fun s hzero => one_add_ne_zero hzero)

/-! ### Probabilities that are not below zero -/

/-- One more than what is not below zero is infinite or above zero. -/
theorem unpack_one_add {z : Float} (hz : IsNonneg z.toModel.unpack) :
    (one + z).toModel.unpack = .infinity .positive ∨
      ∃ m e h, (one + z).toModel.unpack = .finite .positive m e h := by
  obtain ⟨m, e, h, hone⟩ := unpack_one
  have hcanonical : IsCanonical (.finite .positive m e h) := hone ▸ isCanonical_unpack hone
  have hsum : (one + z).toModel.unpack = (Float.Model.pack (UnpackedFloat.add Format.binary64
      (.finite .positive m e h) z.toModel.unpack)).unpack := by
    rw [← hone]
    rfl
  rw [hsum]
  generalize z.toModel.unpack = a at hz
  cases hz with
  | infinity =>
    rw [(roundsIncreasing_add hcanonical).infinity]
    exact .inl rfl
  | finite ha =>
    -- the sum is not rounded to less than one
    have hrounds := roundsTo_add h hcanonical ha
    have hvalue := (RoundsTo.refl hcanonical).value_le hrounds (value_nonneg _)
      (le_add_of_nonneg_right (value_nonneg a))
    have hsum := hrounds.canonical
    rw [unpack_pack_of_isCanonical hsum]
    generalize UnpackedFloat.add Format.binary64 (.finite .positive m e h) a = b at hvalue hsum
    split
    · cases hsum with
      | zero s =>
        have hpos : (0 : ℚ) < m := by exact_mod_cast h
        rw [value_zero, value_finite] at hvalue
        exact absurd hvalue (not_le_of_gt (by positivity))
      | finite hm => exact .inr ⟨_, _, hm, rfl⟩
    · exact .inl rfl

/-- A quotient of what is not below zero is not below zero, unless infinity is divided by itself. -/
theorem isNonneg_div {a b : UnpackedFloat} (ha : IsNonneg a) (hinf : a ≠ .infinity .positive)
    (hb : b = .infinity .positive ∨ ∃ m e h, b = .finite .positive m e h) :
    IsNonneg (Float.Model.pack (UnpackedFloat.div Format.binary64 a b)).unpack := by
  rcases hb with rfl | ⟨m, e, h, rfl⟩
  · cases ha with
    | infinity => exact absurd rfl hinf
    | finite ha => cases ha <;> exact isNonneg_unpack_pack (.zero _)
  · exact (roundsIncreasing_div h).isNonneg ha

/-- **The probability of a score is not below zero**, if the exponential is not, and that of a
number below zero is at most one. -/
theorem zero_le_sigmoid (hexp : ∀ x : Float, x.isNaN = false → Scalar.zero ≤ exp x)
    (hunit : ∀ x : Float, x < Scalar.zero → exp x ≤ one) {x : Float}
    (hx : x.isNaN = false) : Scalar.zero ≤ LogProb.sigmoid x := by
  have hdiv : ∀ a b : Float, (a / b).toModel.unpack = (Float.Model.pack (UnpackedFloat.div
      Format.binary64 a.toModel.unpack b.toModel.unpack)).unpack := fun _ _ => rfl
  unfold LogProb.sigmoid
  split
  · have hz := zero_le_iff.1 (hexp (-x) (isNaN_neg hx))
    obtain ⟨m, e, h, hone⟩ := unpack_one
    rw [zero_le_iff, hdiv, hone]
    exact isNonneg_div (.finite (hone ▸ isCanonical_unpack hone)) (fun h => by cases h)
      (unpack_one_add hz)
  · next hneg =>
    have hlt : x < Scalar.zero := by
      rw [lt_iff hx rfl]
      exact lt_of_not_ge fun hle => hneg ((le_iff rfl hx).2 hle)
    have h0 := hexp x hx
    dsimp only
    rw [zero_le_iff, hdiv]
    exact isNonneg_div (zero_le_iff.1 h0)
      (unpack_ne_infinity (isNaN_of_le h0).2 h0 (hunit x hlt) .positive)
      (unpack_one_add (zero_le_iff.1 h0))

end Double

/-! ### Exact scores -/

namespace LogProb

@[simp] theorem sigmoid_bot : sigmoid (⊥ : EReal) = 0 := by
  simp [sigmoid]

@[simp] theorem sigmoid_top : sigmoid (⊤ : EReal) = 1 := by
  simp [sigmoid]

/-- The probability of a finite score. -/
theorem sigmoid_coe (x : ℝ) : sigmoid (x : EReal) = (Real.sigmoid x : ℝ) := by
  have hexp : ∀ y : ℝ, (exp (y : EReal) : EReal) = (Real.exp y : ℝ) := by
    intro y
    rw [exp_ereal, EReal.exp_coe, EReal.coe_ennreal_ofReal, max_eq_left (Real.exp_pos y).le]
  unfold sigmoid
  dsimp only
  rw [hexp, ← EReal.coe_neg, hexp, one_ereal]
  split
  · rw [← EReal.coe_one, ← EReal.coe_add, ← EReal.coe_div, one_div, Real.sigmoid_def]
  · have hquotient : Real.exp x / (1 + Real.exp x) = Real.sigmoid x := by
      rw [Real.sigmoid_def, Real.exp_neg]
      have hpos := Real.exp_pos x
      field_simp
      ring
    rw [← EReal.coe_one, ← EReal.coe_add, ← EReal.coe_div, hquotient]

/-- **The higher a score, the more probable.** -/
theorem strictMono_sigmoid : StrictMono (sigmoid : EReal → EReal) := by
  intro x y hxy
  induction x with
  | top => exact absurd hxy not_top_lt
  | bot =>
    induction y with
    | bot => exact absurd hxy (lt_irrefl _)
    | top => rw [sigmoid_bot, sigmoid_top]; exact zero_lt_one
    | coe y => rw [sigmoid_bot, sigmoid_coe]; exact_mod_cast Real.sigmoid_pos y
  | coe x =>
    induction y with
    | bot => exact absurd hxy not_lt_bot
    | top => rw [sigmoid_coe, sigmoid_top]; exact_mod_cast Real.sigmoid_lt_one x
    | coe y =>
      rw [sigmoid_coe, sigmoid_coe, EReal.coe_lt_coe_iff]
      exact Real.sigmoid_strictMono (EReal.coe_lt_coe_iff.1 hxy)

end LogProb

/-! ### Scores -/

/-- Some numbers are compared as their ranks are, whatever is compared is one of them, and the
probability with the odds of one of them is one of them. -/
structure Scalar.RankedOdds {α β : Type} [Scalar α] [LinearOrder β] (rank : α → β)
    (P : α → Prop) : Prop extends Ranked rank P where
  of_lt_left : ∀ {x y : α}, x < y → P x
  sigmoid : ∀ {x : α}, P x → P (LogProb.sigmoid x)

/-- This holds of exact numbers. -/
theorem Scalar.rankedOdds_ereal : RankedOdds (id : EReal → EReal) fun _ => True where
  toRanked := ranked_ereal
  of_lt_left _ := trivial
  sigmoid _ := trivial

/-- It holds of doubles that are numbers, if the exponential is what it should be. -/
theorem Scalar.rankedOdds_float (hexp : ∀ x : Float, x.isNaN = false → (exp x).isNaN = false)
    (hunit : ∀ x : Float, x < zero → zero ≤ exp x ∧ exp x ≤ one) :
    RankedOdds Double.rank fun x : Float => x.isNaN = false where
  toRanked := ranked_float
  of_lt_left := Double.isNaN_left_of_lt
  sigmoid hx := Double.isNaN_sigmoid hexp hunit hx

/-- Scores of facts are in the order of the probabilities that they are made from. -/
structure Scalar.RankedScores {α β : Type} [Scalar α] [LinearOrder β] (rank : α → β)
    (P : α → Prop) : Prop extends RankedOdds rank P where
  score_le : ∀ {x y : α}, P x → P y → rank (LogProb.sigmoid x) ≤ rank (LogProb.sigmoid y) →
    half + LogProb.sigmoid x / nat 2 ≤ half + LogProb.sigmoid y / nat 2

/-- This holds of exact numbers. -/
theorem Scalar.rankedScores_ereal : RankedScores (id : EReal → EReal) fun _ => True where
  toRankedOdds := rankedOdds_ereal
  score_le _ _ h := by
    refine add_le_add_right ?_ _
    exact EReal.div_le_div_right_of_nonneg (by simp) h

/-- It holds of doubles that are numbers, if the exponential is what it should be. -/
theorem Scalar.rankedScores_float (hexp : ∀ x : Float, x.isNaN = false → zero ≤ exp x)
    (hunit : ∀ x : Float, x < zero → exp x ≤ one) :
    RankedScores Double.rank fun x : Float => x.isNaN = false where
  toRankedOdds := rankedOdds_float (fun x hx => (Double.isNaN_of_le (hexp x hx)).2)
    fun x hx => ⟨hexp x (Double.isNaN_left_of_lt hx), hunit x hx⟩
  score_le hx hy h := by
    have hxp := Double.zero_le_sigmoid hexp hunit hx
    have hyp := Double.zero_le_sigmoid hexp hunit hy
    exact Double.half_add_div_two_le hxp
      ((Double.le_iff (Double.isNaN_of_le hxp).2 (Double.isNaN_of_le hyp).2).2 h)

end FactNet
