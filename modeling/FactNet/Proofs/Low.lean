import FactNet.Proofs.Factor.Uncertain
import FactNet.Proofs.Odds

/-!
# Log-probabilities stay low

A log-probability is not above zero, and no sum of log-probabilities is, so the exponential of none
is too large.  What is no number counts as low, too: it is not above zero either.

Exact numbers behave like this, and so do doubles.  A double is low unless it has the sign of what
is above zero, and adding two that do not have it never gives it.

## Main definitions

* `Scalar.StaysLow` — what is stored is low, sums of low numbers are, and none has an exponential
  that is too large.
* `GroundedRule.IsLow` — so are both log-probabilities of a rule.
* `Double.Low` — the doubles that are not above zero.

## Main results

* `Scalar.staysLow_ereal` — exact numbers.
* `Scalar.StaysLow.overflows` — **merging low rules needs no exponential that is too large.**
* `Double.low_add` — **a sum of low doubles is low.**
* `Scalar.staysLow_float` — **doubles, if exponential and logarithm are what they should be.**
-/

namespace FactNet

open Scalar

/-- What is not above zero stays so: zero, sums, what is stored, and the log-probabilities of a
default prior; and no exponential of it is too large. -/
structure Scalar.StaysLow (α : Type) [Scalar α] : Prop where
  /-- Zero is not above itself. -/
  zero : ¬(zero : α) < zero
  /-- A sum of what is not above zero is not. -/
  add : ∀ {x y : α}, ¬Scalar.zero < x → ¬Scalar.zero < y → ¬Scalar.zero < x + y
  /-- What is stored is not above zero. -/
  clip : ∀ x : α, ¬Scalar.zero < LogProb.clip x
  /-- Nor are the logarithms of a default prior and of its opposite. -/
  ofProb : ∀ {d : α}, Scalar.zero < d → d < one →
    ¬Scalar.zero < LogProb.ofProb d ∧ ¬Scalar.zero < LogProb.ofProb (one - d)
  /-- No exponential of what is not above zero is too large. -/
  exp : ∀ {x : α}, ¬Scalar.zero < x → expOverflows x = false

/-- Exact numbers stay low. -/
theorem Scalar.staysLow_ereal : StaysLow EReal where
  zero := lt_irrefl _
  add {x y} hx hy := by
    rw [zero_ereal, not_lt] at hx hy ⊢
    exact add_nonpos hx hy
  clip x := by
    rw [zero_ereal]
    exact (LogProb.isUncertain_clip x).2.not_gt
  ofProb {d} h0 h1 := by
    rw [zero_ereal] at h0 ⊢
    rw [one_ereal] at h1 ⊢
    exact ⟨(LogProb.ofProb_nonpos h1.le).not_gt,
      (LogProb.ofProb_nonpos (EReal.sub_le_of_le_add' (le_add_of_nonneg_left h0.le))).not_gt⟩
  exp _ := rfl

/-! ### Merging -/

/-- Neither log-probability of a rule is above zero. -/
def GroundedRule.IsLow {α : Type} [Scalar α] (g : GroundedRule α) : Prop :=
  ¬zero < g.ifTrue ∧ ¬zero < g.ifFalse

namespace Scalar.StaysLow

variable {α : Type} [Scalar α] {prior : GroundedRule α} {rows : List (GroundedRule α)}

/-- No sum of what is not above zero is. -/
theorem sum (h : StaysLow α) {xs : List α} (hxs : ∀ x ∈ xs, ¬Scalar.zero < x) :
    ¬Scalar.zero < Scalar.sum xs := by
  have hfold : ∀ acc : α, ¬Scalar.zero < acc → ¬Scalar.zero < xs.foldl (· + ·) acc := by
    induction xs with
    | nil => exact fun _ hacc => hacc
    | cons x xs ih =>
      obtain ⟨hx, hxs⟩ := List.forall_mem_cons.1 hxs
      exact fun acc hacc => ih hxs _ (h.add hacc hx)
  exact hfold Scalar.zero h.zero

/-- **Merging low rules needs no exponential that is too large.** -/
theorem overflows (h : StaysLow α) (m : MergeMethod) (hprior : prior.IsLow)
    (hrows : ∀ g ∈ rows, g.IsLow) : m.overflows prior rows = false := by
  have hfalse : ∀ side : GroundedRule α → Bool,
      expOverflows (MergeMethod.jointlyFalse prior (rows.filter side)) = false := by
    intro side
    refine h.exp (h.sum fun x hx => ?_)
    obtain ⟨g, hg, rfl⟩ := List.mem_map.1 hx
    unfold least
    split
    · exact (hrows g (List.mem_of_mem_filter hg)).2
    · exact hprior.2
  have htrue : ∀ side : GroundedRule α → Bool,
      expOverflows (MergeMethod.jointlyTrue prior (rows.filter side)) = false := by
    intro side
    refine h.exp (h.sum fun x hx => ?_)
    obtain ⟨g, hg, rfl⟩ := List.mem_map.1 hx
    unfold greatest
    split
    · exact (hrows g (List.mem_of_mem_filter hg)).1
    · exact hprior.1
  -- two ways to merge take exponentials of sums, the others none
  cases m with
  | noisyOr => rfl
  | geometricMean => rfl
  | hybridOr => simp only [MergeMethod.overflows, hfalse, htrue, Bool.or_self]
  | gentleOr => simp only [MergeMethod.overflows, hfalse, Bool.or_self]

end Scalar.StaysLow

/-! ### Doubles -/

namespace Double

open Float.Model Float.Model.UnpackedFloat

/-- What is no number is not at most any double. -/
theorem isNaN_left_of_le {x y : Float} (h : x ≤ y) : x.isNaN = false := by
  have hle : x ≤ y ↔
      ((UnpackedFloat.compare x.toModel.unpack y.toModel.unpack).any (·.isLE)) = true :=
    decide_eq_true_iff
  rw [hle] at h
  show x.toModel.unpack.isNaN = false
  cases hx : x.toModel.unpack with
  | notANumber => rw [hx] at h; cases h
  | infinity s => rfl
  | zero s => rfl
  | finite s m e hm => rfl

/-- A double does not have the sign of what is above zero, or is zero or no number. -/
def Low : UnpackedFloat → Prop
  | .notANumber => True
  | .zero _ => True
  | .infinity s => s = .negative
  | .finite s _ _ _ => s = .negative

/-- **The low doubles are those that are not above zero.** -/
theorem not_zero_lt_iff {x : Float} : ¬Scalar.zero < x ↔ Low x.toModel.unpack := by
  have hlt : Scalar.zero < x ↔
      (UnpackedFloat.compare (.zero .positive) x.toModel.unpack == some .lt) = true :=
    decide_eq_true_iff
  rw [hlt]
  cases x.toModel.unpack with
  | notANumber => exact ⟨fun _ => trivial, fun _ => Bool.false_ne_true⟩
  | zero s => exact ⟨fun _ => trivial, fun _ => Bool.false_ne_true⟩
  | infinity s => cases s <;> simp [Low, UnpackedFloat.compare]
  | finite s m e h => cases s <;> simp [Low, UnpackedFloat.compare]

theorem unpackSign_packComponents_negative (e : BitVec 11) (m : BitVec 52) :
    Sign.ofBitVec (unpackSign (packComponents Format.binary64 .negative e m)) = .negative := by
  rw [Float.Model.UnpackedFloat.unpackSign_packComponents]
  rfl

/-- What is packed with a sign is read with it. -/
theorem low_unpack_packComponents (e : BitVec 11) (m : BitVec 52) :
    Low (UnpackedFloat.unpack Format.binary64
      (packComponents Format.binary64 .negative e m)) := by
  unfold UnpackedFloat.unpack
  dsimp only
  rw [unpackSign_packComponents_negative]
  split
  · split
    · rfl
    · trivial
  · split
    · split
      · trivial
      · rfl
    · rfl

/-- What is low stays so when it is packed. -/
theorem low_unpack_pack {u : UnpackedFloat} (h : Low u) : Low (Float.Model.pack u).unpack := by
  show Low (UnpackedFloat.unpack Format.binary64 (UnpackedFloat.pack Format.binary64 u))
  cases u with
  | notANumber => trivial
  | zero s => cases s <;> trivial
  | infinity s =>
    obtain rfl : s = .negative := h
    rfl
  | finite s m e hm =>
    obtain rfl : s = .negative := h
    unfold UnpackedFloat.pack
    dsimp only
    split
    · rfl
    · split <;> exact low_unpack_packComponents _ _

theorem low_round (m : Nat) (e : Int) :
    Low (UnpackedFloat.round Format.binary64 .negative m e) := by
  unfold UnpackedFloat.round roundWithAccuracy
  dsimp only
  split
  · trivial
  · rfl

/-- **A sum of low doubles is low.** -/
theorem low_add {a b : UnpackedFloat} (ha : Low a) (hb : Low b) :
    Low (UnpackedFloat.add Format.binary64 a b) := by
  cases a with
  | notANumber => trivial
  | infinity s =>
    obtain rfl : s = .negative := ha
    cases b with
    | notANumber => trivial
    | infinity s' =>
      obtain rfl : s' = .negative := hb
      rfl
    | zero s' => rfl
    | finite s' m e h => rfl
  | zero s =>
    cases b with
    | notANumber => trivial
    | infinity s' => exact hb
    | zero s' => cases s <;> cases s' <;> trivial
    | finite s' m e h => exact hb
  | finite s m e h =>
    obtain rfl : s = .negative := ha
    cases b with
    | notANumber => trivial
    | infinity s' => exact hb
    | zero s' => rfl
    | finite s' m' e' h' =>
      obtain rfl : s' = .negative := hb
      unfold UnpackedFloat.add UnpackedFloat.normalize
      dsimp only
      split
      · exact low_round _ _
      · trivial
      · next hgt =>
        -- the two significands are both taken off
        exfalso
        rw [compare_gt_iff_gt] at hgt
        simp only [Sign.apply] at hgt
        omega

end Double

/-- Doubles stay low, if the exponential of what is not above zero is not too large and the
logarithms of a probability and of its opposite are not above zero. -/
theorem Scalar.staysLow_float
    (hexp : ∀ x : Float, ¬zero < x → expOverflows x = false)
    (hlog : ∀ p : Float, zero < p → p < one → log p ≤ zero ∧ log (one - p) ≤ zero) :
    StaysLow Float := by
  -- doubles that are at most zero are numbers, and of numbers one order excludes the other
  have hnot : ∀ {x : Float}, x ≤ zero → ¬zero < x := by
    intro x hle hlt
    have hx := Double.isNaN_of_lt hlt
    rw [Double.le_iff hx rfl] at hle
    rw [Double.lt_iff rfl hx] at hlt
    exact absurd hle (not_le.2 hlt)
  have hbottom : ¬zero < (bottom : Float) := by decide
  obtain ⟨hleast, hgreatest⟩ := hlog (decimal 1 4) (by decide) (by decide)
  refine ⟨by decide, fun hx hy => ?_, fun x => ?_, fun h0 h1 => ?_, fun hx => hexp _ hx⟩
  · rw [Double.not_zero_lt_iff] at hx hy ⊢
    exact Double.low_unpack_pack (Double.low_add hx hy)
  · unfold LogProb.clip
    split
    · exact hnot hleast
    · split
      · exact hnot hgreatest
      · next hle =>
        intro hlt
        have hx := Double.isNaN_of_lt hlt
        have hnumber : (LogProb.greatest : Float).isNaN = false :=
          Double.isNaN_left_of_le hgreatest
        rw [Double.lt_iff rfl hx] at hlt
        rw [Double.lt_iff hnumber hx] at hle
        exact hle (lt_of_le_of_lt ((Double.le_iff hnumber rfl).1 hgreatest) hlt)
  · unfold LogProb.ofProb
    obtain ⟨hp, hq⟩ := hlog _ h0 h1
    constructor
    · split
      · exact hbottom
      · exact hnot hp
    · split
      · exact hbottom
      · exact hnot hq

end FactNet
