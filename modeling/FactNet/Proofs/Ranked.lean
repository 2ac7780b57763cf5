import FactNet.Proofs.Double
import FactNet.Proofs.Exact

/-!
# Numbers that can be compared

Exact numbers are compared as they stand.  Doubles are compared by their ranks, unless one of them
is no number at all, and the two zeros have one rank.  What is proved of numbers that are ranked
holds of both.

## Main definitions

* `Scalar.Ranked`, `Scalar.TotallyRanked` — some numbers are compared as their ranks are, by one
  comparison or by either.
* `Scalar.Comparable` — numbers are told apart by comparing them.

## Main results

* `Scalar.ranked_ereal`, `Scalar.ranked_float` — exact numbers and doubles are ranked.
* `Scalar.totallyRanked_ereal`, `Scalar.totallyRanked_float` — by either comparison.
-/

namespace FactNet

open Scalar

/-! ### Numbers that are ranked -/

/-- Some numbers are compared as their ranks are, the one below all others is one of them, and so is
whatever is greater than another. -/
structure Scalar.Ranked {α β : Type} [Scalar α] [LinearOrder β] (rank : α → β)
    (P : α → Prop) : Prop where
  lt_iff : ∀ {x y : α}, P x → P y → (x < y ↔ rank x < rank y)
  beq_iff : ∀ {x y : α}, P x → P y → ((x == y) = true ↔ rank x = rank y)
  bottom : P bottom
  bottom_le : ∀ {x : α}, P x → Scalar.bottom ≤ x
  of_lt : ∀ {x y : α}, x < y → P y

/-- Exact numbers are ranked by themselves. -/
theorem Scalar.ranked_ereal : Ranked (id : EReal → EReal) fun _ => True where
  lt_iff _ _ := Iff.rfl
  beq_iff _ _ := beq_iff_eq
  bottom := trivial
  bottom_le _ := bot_le
  of_lt _ := trivial

namespace Double

/-- No double is less than what is no number. -/
theorem isNaN_of_lt {x y : Float} (h : x < y) : y.isNaN = false := by
  have hlt : x < y ↔ (Float.Model.UnpackedFloat.compare x.toModel.unpack y.toModel.unpack ==
      some .lt) = true := decide_eq_true_iff
  exact (isNaN_of_compare (eq_of_beq (hlt.1 h))).2

/-- The lowest double has the lowest rank. -/
theorem rank_bottom_le {x : Float} (hx : x.isNaN = false) : rank Scalar.bottom ≤ rank x := by
  have hbottom : rank Scalar.bottom = toLex (-2, toLex (0, 0)) := rfl
  rw [hbottom, rank]
  cases h : x.toModel.unpack with
  | notANumber => exact absurd h (unpack_ne_notANumber hx)
  | infinity s =>
    cases s with
    | negative => exact le_refl _
    | positive => exact Prod.Lex.toLex_le_toLex.2 (.inl (by decide))
  | zero s => exact Prod.Lex.toLex_le_toLex.2 (.inl (by decide))
  | finite s m e hm =>
    cases s with
    | negative => exact Prod.Lex.toLex_le_toLex.2 (.inl (show (-2 : ℤ) < -1 by decide))
    | positive => exact Prod.Lex.toLex_le_toLex.2 (.inl (show (-2 : ℤ) < 1 by decide))

end Double

/-- Doubles that are numbers are ranked. -/
theorem Scalar.ranked_float : Ranked Double.rank fun x : Float => x.isNaN = false where
  lt_iff := Double.lt_iff
  beq_iff := Double.beq_iff
  bottom := rfl
  bottom_le hx := (Double.le_iff rfl hx).2 (Double.rank_bottom_le hx)
  of_lt := Double.isNaN_of_lt

/-- Some numbers are compared as their ranks are, by either comparison. -/
structure Scalar.TotallyRanked {α β : Type} [Scalar α] [LinearOrder β] (rank : α → β)
    (P : α → Prop) : Prop extends Ranked rank P where
  le_iff : ∀ {x y : α}, P x → P y → (x ≤ y ↔ rank x ≤ rank y)

theorem Scalar.totallyRanked_ereal : TotallyRanked (id : EReal → EReal) fun _ => True where
  toRanked := ranked_ereal
  le_iff _ _ := Iff.rfl

theorem Scalar.totallyRanked_float :
    TotallyRanked Double.rank fun x : Float => x.isNaN = false where
  toRanked := ranked_float
  le_iff := Double.le_iff

section Order

variable {α β : Type} [Scalar α] [LinearOrder β] {rank : α → β} {P : α → Prop} {x y z : α}

theorem Scalar.Ranked.asymm (hrank : Ranked rank P) (hx : P x) (hy : P y) (h : x < y) : ¬y < x := by
  rw [hrank.lt_iff hx hy] at h
  rw [hrank.lt_iff hy hx]
  exact lt_asymm h

/-- What is not greater is less than what is greater. -/
theorem Scalar.Ranked.lt_of_not_lt (hrank : Ranked rank P) (hx : P x) (hy : P y) (hz : P z)
    (hxy : ¬y < x) (hyz : y < z) : x < z := by
  rw [hrank.lt_iff hy hx, not_lt] at hxy
  rw [hrank.lt_iff hy hz] at hyz
  rw [hrank.lt_iff hx hz]
  exact hxy.trans_lt hyz

end Order

/-! ### Numbers that are told apart -/

/-- Numbers are told apart by comparing them: they stand in a line, and only one and the same count
as equal.  Doubles do so unless one is no number or both zeros are among them. -/
structure Scalar.Comparable {α : Type} [Scalar α] (P : α → Prop) : Prop where
  irrefl : ∀ {x}, P x → ¬x < x
  trans : ∀ {x y z}, P y → P z → x < y → y < z → x < z
  eq_of_not_lt : ∀ {x y}, P x → P y → ¬x < y → ¬y < x → x = y
  beq_iff : ∀ {x y}, P x → P y → ((x == y) = true ↔ x = y)

/-- Exact numbers are told apart by comparing them. -/
theorem Scalar.comparable_ereal (P : EReal → Prop) : Comparable P where
  irrefl _ := lt_irrefl _
  trans _ _ := lt_trans
  eq_of_not_lt _ _ h h' := le_antisymm (not_lt.1 h') (not_lt.1 h)
  beq_iff _ _ := beq_iff_eq

end FactNet
