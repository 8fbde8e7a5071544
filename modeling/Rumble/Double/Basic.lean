namespace Rumble.Double

/-- The exponent `e` with `2^e ≤ |q| < 2^(e+1)`; zero has none. -/
def exponent (q : Rat) : Int :=
  let e : Int := q.num.natAbs.log2 - q.den.log2
  if (2 : Rat) ^ e ≤ q.abs then e else e - 1

def nearestEven (q : Rat) : Int :=
  let n := q.floor
  let r := q - n
  if r < 1 / 2 ∨ (r = 1 / 2 ∧ n % 2 = 0) then n else n + 1

/-- The distance between neighbours among the numbers with 53 bits around `q`. -/
def spacing (q : Rat) : Rat := 2 ^ (exponent q - 52)

def round (q : Rat) : Rat := nearestEven (q / spacing q) * spacing q

end Rumble.Double
