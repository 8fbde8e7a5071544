import Rumble.Double.Log
import Rumble.Status

namespace Rumble.Attenuation

/-- The nearest integer to `160 · log₁₀ (maximum / amplitude)`, for `amplitude ≤ maximum`.

For `x = (maximum / amplitude)^320` this is half of `log₁₀ x`, rounded. It is `k` exactly when
`10^(2k-1) ≤ x < 10^(2k+1)`, that is, when `⌊x⌋` has `2k` or `2k + 1` digits. -/
def exactSteps (amplitude maximum : Nat) : Nat :=
  (Nat.toDigits 10 (Nat.pow maximum 320 / Nat.pow amplitude 320)).length / 2

def stepDecibels : Rat := 1 / 8

/-- `-20 · log₁₀ (amplitude / maximum)` in double precision. -/
def decibels (amplitude maximum : Nat) : Rat :=
  Double.round (-20 * Double.log10 (Double.round (amplitude / maximum)))

/-- The number of steps that is nearest to the decibels, the larger one of two. Dividing by an
eighth does not round. -/
def steps (amplitude maximum : Nat) : Nat :=
  (decibels amplitude maximum / stepDecibels + 1 / 2).floor.toNat

def scale (amplitude maximum : UInt32) : Except Failure UInt32 :=
  if amplitude = 0 ∨ maximum < amplitude then .error .badValue
  else .ok (.ofNat (steps amplitude.toNat maximum.toNat))

end Rumble.Attenuation
