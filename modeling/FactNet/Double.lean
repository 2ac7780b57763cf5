/-!
# Exponential and logarithm near one

The exponential of a small number is near one, and the logarithm of a number near one is
small; a difference of one, taken before or after, loses most of the digits.  The two functions
here keep them.

Both first take away a multiple of the logarithm of two, whose two parts make the difference
exact, and then use a quotient of polynomials on the small range that is left.  What was lost in
rounding the argument is kept beside it and put in at the end.

## Main definitions

* `Double.expLessOne` — the exponential less one.
* `Double.logOnePlus` — the logarithm of one more than the argument.
-/

namespace FactNet.Double

/-- The greater part of the logarithm of two; its products with small whole numbers are exact. -/
def ln2Head : Float := 6.93147180369123816490e-01

/-- The rest of the logarithm of two. -/
def ln2Tail : Float := 1.90821492927058770002e-10

/-- The least argument at which adding it to one makes a difference. -/
def negligible : Float := 5.551115123125783e-17

/-! ### The exponential less one -/

/-- How many times the logarithm of two is taken away from an argument, to the nearest. -/
def multiplesOfLn2 (x : Float) : Int :=
  if x.abs < 0.3465735912322998 then 0
  else if x.abs < 1.0397205352783203 then (if x < 0.0 then -1 else 1)
  else if x < 0.0 then -((0.5 - 1.44269504088896338700 * x).toUInt64.toNat : Int)
  else ((1.44269504088896338700 * x + 0.5).toUInt64.toNat : Int)

/-- How far the exponential less one of a small number is from its first two terms, as a part of
the square: the answer is that part times half the square, and half the square. -/
def expRemainder (x : Float) : Float × Float :=
  let half := 0.5 * x
  let square := x * half
  let square2 := square * square
  let square4 := square2 * square2
  let r := 1.0 + square * (-3.33333333333331316428e-02)
    + square2 * (1.58730158725481460165e-03 + square * (-7.93650757867487942473e-05))
    + square4 * (4.00821782732936239552e-06 + square * (-2.01099218183624371326e-07))
  let t := 3.0 - r * half
  (square * ((r - t) / (6.0 - x * t)), square)

/-- Puts the power of two back: the exponential less one of `x - e` plus `k` times the logarithm
of two, where `e` corrects the exponential of `x` less one. -/
def timesPowerOfTwo (x e : Float) (k : Int) : Float :=
  if k = -1 then 0.5 * (x - e) - 0.5
  else if k = 1 then
    if x < -0.25 then -2.0 * (e - (x + 0.5)) else 1.0 + 2.0 * (x - e)
  else if k ≤ -2 || 56 < k then (1.0 - (e - x)).scaleB k - 1.0
  else
    let unit := (1.0 : Float).scaleB (-k)
    if k < 20 then ((1.0 - unit) - (e - x)).scaleB k
    else ((x - (e + unit)) + 1.0).scaleB k

/-- The exponential less one. -/
def expLessOne (x : Float) : Float :=
  if x.isNaN then x
  else if 7.09782712893383973096e+02 < x then 1.0 / 0.0
  else if x ≤ -38.81622314453125 then -1.0
  else if x.abs < negligible then x
  else
    let k := multiplesOfLn2 x
    if k = 0 then
      let (e, square) := expRemainder x
      x - (x * e - square)
    else
      let times := Float.ofInt k
      -- the first difference is exact, and the second one is off by `lost`
      let head := x - times * ln2Head
      let tail := times * ln2Tail
      let y := head - tail
      let lost := (head - y) - tail
      let (e, square) := expRemainder y
      timesPowerOfTwo y ((y * (e - lost) - lost) - square) k

/-! ### The logarithm of one more -/

/-- One more than the argument as a power of two times one more than a small number: that number,
the exponent, and what was lost in the sum. -/
def factorOnePlus (x : Float) : Float × Int × Float :=
  if -0.2928934097290039 < x && x < 0.4142136573791504 then (x, 0, 0.0)
  else
    -- a large number swallows the one
    let isLarge := 9007199254740992.0 ≤ x
    let u := if isLarge then x else 1.0 + x
    let (m, e) := u.frExp
    let k := e - 1
    let lost :=
      if isLarge then 0.0
      else (if 0 < k then 1.0 - (u - x) else x - (u - 1.0)) / u
    if 2.0 * m < 1.4142131805419922 then (2.0 * m - 1.0, k, lost) else (m - 1.0, k + 1, lost)

/-- How far twice the quotient `f / (2 + f)` is from the logarithm of `1 + f`, as a part of the
quotient, given the square of the quotient. -/
def logRemainder (z : Float) : Float :=
  let z2 := z * z
  let z4 := z2 * z2
  let z6 := z4 * z2
  z * 6.666666666666735130e-01
    + z2 * (3.999999999940941908e-01 + z * 2.857142874366239149e-01)
    + z4 * (2.222219843214978396e-01 + z * 1.818357216161805012e-01)
    + z6 * (1.531383769920937332e-01 + z * 1.479819860511658591e-01)

/-- The logarithm of one more than a small number, plus `k` times the logarithm of two; `lost` is
what has to be added to the small number. -/
def addMultipleOfLn2 (f : Float) (k : Int) (lost : Float) : Float :=
  let head := Float.ofInt k * ln2Head
  let tail := Float.ofInt k * ln2Tail + lost
  let half := 0.5 * f * f
  if f == 0.0 then head + tail
  else if k ≠ 0 && -1.430511474609375e-06 ≤ f && f < 9.5367431640625e-07 then
    head - ((half * (1.0 - 0.66666666666666666 * f) - tail) - f)
  else
    let s := f / (2.0 + f)
    let r := s * (half + logRemainder (s * s))
    if k = 0 then f - (half - r) else head - ((half - (r + tail)) - f)

/-- The logarithm of one more than the argument. -/
def logOnePlus (x : Float) : Float :=
  if x.isNaN then x
  else if x ≤ -1.0 then (if x == -1.0 then -1.0 / 0.0 else 0.0 / 0.0)
  else if x == 1.0 / 0.0 then x
  else if x.abs < negligible then x
  else if x.abs < 1.862645149230957e-09 then x - x * x * 0.5
  else
    let (f, k, lost) := factorOnePlus x
    addMultipleOfLn2 f k lost

end FactNet.Double
