import FactNet.Random.Stream
import FactNet.Scalar

/-!
# The Mersenne twister

The stream behind every chain: 624 words of 32 bits, renewed all at once and handed out one
by one.  A seed is any integer; its sign does not count, and a large one fills several words
of the key that the state is mixed with.

## Main definitions

* `MersenneTwister` — the state of the stream.
* `MersenneTwister.ofSeed` — the stream of a seed.
* `MersenneTwister.nextWord` — the next 32 bits.
* The instances `RandomChoice` and `RandomStream`.
-/

namespace FactNet

/-- The state of a stream: the current words, and how many of them have been handed out. -/
structure MersenneTwister where
  /-- The current 624 words. -/
  words : Array UInt32
  /-- How many of them have been handed out. -/
  used : Nat
  deriving Inhabited

namespace MersenneTwister

/-- The number of words of the state. -/
def size : Nat := 624

/-- The word at a place. -/
@[inline] def word (mt : Array UInt32) (i : Nat) : UInt32 := mt.getD i 0

/-! ### Seeding -/

/-- The state that a single word unfolds to. -/
def ofWord (seed : UInt32) : Array UInt32 :=
  (List.range (size - 1)).foldl
    (fun mt i =>
      let prev := word mt i
      mt.push ((1812433253 : UInt32) * (prev ^^^ (prev >>> 30)) + (i + 1).toUInt32))
    #[seed]

/-- The words of a natural number, the low ones first, and never none. -/
def keyWords (n : Nat) : List UInt32 :=
  if n < 0x100000000 then [n.toUInt32] else n.toUInt32 :: keyWords (n / 0x100000000)
  termination_by n
  decreasing_by omega

/-- A place of the state in its turn, the last word standing before the first. -/
structure Cursor where
  /-- The words. -/
  mt : Array UInt32
  /-- The place to be mixed next. -/
  i : Nat
  /-- The word of the key to be used next. -/
  j : Nat

/-- The next place; past the end the last word is copied to the front. -/
def Cursor.advance (c : Cursor) : Cursor :=
  if c.i + 1 < size then { c with i := c.i + 1 }
  else { c with mt := c.mt.set! 0 (word c.mt (size - 1)), i := 1 }

/-- Mixes one word of the key into the state. -/
def Cursor.mixKey (key : Array UInt32) (c : Cursor) : Cursor :=
  let prev := word c.mt (c.i - 1)
  let mixed := (word c.mt c.i ^^^ ((prev ^^^ (prev >>> 30)) * 1664525)) + word key c.j
    + c.j.toUInt32
  let j := if c.j + 1 < key.size then c.j + 1 else 0
  ({ c with mt := c.mt.set! c.i mixed, j := j } : Cursor).advance

/-- Mixes the places themselves into the state. -/
def Cursor.mixPlace (c : Cursor) : Cursor :=
  let prev := word c.mt (c.i - 1)
  let mixed := (word c.mt c.i ^^^ ((prev ^^^ (prev >>> 30)) * 1566083941)) - c.i.toUInt32
  ({ c with mt := c.mt.set! c.i mixed } : Cursor).advance

/-- The state that a key is mixed into. -/
def ofKey (key : Array UInt32) : Array UInt32 :=
  -- every word of the key and every place of the state has its turn
  let rounds := max size key.size
  let c := (List.range rounds).foldl (fun c _ => c.mixKey key) (Cursor.mk (ofWord 19650218) 1 0)
  let c := (List.range (size - 1)).foldl (fun c _ => c.mixPlace) c
  c.mt.set! 0 0x80000000

/-- The stream of a seed. -/
def ofSeed (seed : Int) : MersenneTwister :=
  ⟨ofKey (keyWords seed.natAbs).toArray, size⟩

/-! ### Drawing -/

/-- Renews the word at a place from the next word and the one 397 places on. -/
def renewWord (mt : Array UInt32) (i : Nat) : Array UInt32 :=
  -- the highest bit of one word and the other bits of the next
  let y := (word mt i &&& 0x80000000) ||| (word mt ((i + 1) % size) &&& 0x7fffffff)
  let shifted := word mt ((i + 397) % size) ^^^ (y >>> 1)
  mt.set! i (if y &&& 1 == 0 then shifted else shifted ^^^ 0x9908b0df)

/-- All words renewed, in order. -/
def renew (mt : Array UInt32) : Array UInt32 :=
  (List.range size).foldl renewWord mt

/-- The bits of a word spread before it is handed out. -/
@[inline] def temper (y : UInt32) : UInt32 :=
  let y := y ^^^ (y >>> 11)
  let y := y ^^^ ((y <<< 7) &&& 0x9d2c5680)
  let y := y ^^^ ((y <<< 15) &&& 0xefc60000)
  y ^^^ (y >>> 18)

/-- The next 32 bits. -/
def nextWord (s : MersenneTwister) : UInt32 × MersenneTwister :=
  if s.used < size then (temper (word s.words s.used), ⟨s.words, s.used + 1⟩)
  else
    let words := renew s.words
    (temper (word words 0), ⟨words, 1⟩)

/-- The next `k` bits as a number, for `k` up to 32. -/
def bits (k : Nat) (s : MersenneTwister) : Nat × MersenneTwister :=
  let (w, s) := nextWord s
  ((w >>> (32 - k).toUInt32).toNat, s)

/-- Draws as many bits as the bound `n` has until they make a number below it.  A draw fails at most
every other time, so the number of draws allowed is never reached in practice. -/
def choose (n k : Nat) : Nat → MersenneTwister → Nat × MersenneTwister
  | 0, s => (0, s)
  | fuel + 1, s =>
    let (r, s) := bits k s
    if r < n then (r, s) else choose n k fuel s

/-- The number of draws allowed for one choice. -/
def patience : Nat := 100000

/-- Fifty-three random bits as a number. -/
def draw53 (s : MersenneTwister) : Nat × MersenneTwister :=
  let (a, s) := nextWord s
  let (b, s) := nextWord s
  ((a >>> 5).toNat * 67108864 + (b >>> 6).toNat, s)

instance : RandomChoice MersenneTwister where
  below n s := choose n (n.log2 + 1) patience s

instance {α : Type} [Scalar α] : RandomStream MersenneTwister α where
  unit s :=
    let (n, s) := draw53 s
    (Scalar.nat n / Scalar.nat 9007199254740992, s)

end MersenneTwister

end FactNet
