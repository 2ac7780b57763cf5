/-!
# Random streams

A random choice is made by a definition that takes the state of a stream and hands back the
next one, so what a sampler does is a function of its stream.

## Main definitions

* `RandomChoice` — a stream that chooses among the first natural numbers.
* `RandomStream` — a stream that also draws numbers from zero to below one.
* `shuffle` — a list in random order.
-/

namespace FactNet

/-- A stream that can choose one of the natural numbers below a bound. -/
class RandomChoice (σ : Type) where
  /-- One of the numbers below `n`. -/
  below : (n : Nat) → σ → Nat × σ

/-- A stream that can also draw a number from zero to below one. -/
class RandomStream (σ : Type) (α : Type) extends RandomChoice σ where
  /-- A number from zero to below one. -/
  unit : σ → α × σ

namespace RandomChoice

variable {σ : Type} [RandomChoice σ] {β : Type}

/-- Exchanges each of the last `n` places, from the last one down to the second, with a place chosen
among those not after it. -/
def shuffleArray : Nat → Array β → σ → Array β × σ
  | 0, xs, s => (xs, s)
  | n + 1, xs, s =>
    if n = 0 then (xs, s)
    else
      let (j, s) := below (n + 1) s
      shuffleArray n (xs.swapIfInBounds n j) s

/-- The list in random order. -/
def shuffle (xs : List β) (s : σ) : List β :=
  (shuffleArray xs.length xs.toArray s).1.toList

end RandomChoice

end FactNet
