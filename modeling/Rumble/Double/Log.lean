import Rumble.Double.Basic

/-!
The decimal logarithm in double precision. It is composed of a natural logarithm near one and of a
multiple of the logarithm of two, with a rounding after each operation, so that it can be off by
more than half a unit in the last place.
-/

namespace Rumble.Double

/-- Forty terms of `2 (t + t³/3 + t⁵/5 + …)` for `t = (x - 1) / (x + 1)`, a series for the natural
logarithm of `x`. Between 1/2 and 2 the relative error is below `2^-120`. -/
def lnSum (x : Rat) : Rat :=
  let t := (x - 1) / (x + 1)
  2 * t * (List.range 40).foldr (fun i s => 1 / (2 * i + 1 : Nat) + t * t * s) 0

def lnTen : Rat := 3 * lnSum 2 + lnSum (5 / 4)

def lnScale : Rat := round (1 / lnTen)

def logTwo : Rat := lnSum 2 / lnTen

/-- The leading 41 binary places of `logTwo`; multiples of it by exponents are exact. -/
def logTwoHigh : Rat := (logTwo * 2 ^ (41 : Int)).floor / 2 ^ (41 : Int)

def logTwoLow : Rat := round (logTwo - logTwoHigh)

def log10 (q : Rat) : Rat :=
  let e := exponent q
  let k := if e < 0 then e + 1 else e
  let rest := round (lnScale * round (lnSum (q / 2 ^ k)))
  round (round (round (k * logTwoLow) + rest) + k * logTwoHigh)

end Rumble.Double
