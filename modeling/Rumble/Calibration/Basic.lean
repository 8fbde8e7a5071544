import Rumble.Log
import Rumble.Voltage

namespace Rumble

structure Calibration where
  f0 : Option UInt32
  redc : Option UInt32
  /-- The quality factor, with 16 binary places. -/
  q : UInt32
  levels : Option VoltageTable
  deriving DecidableEq, Repr

namespace Calibration

def one : Nat := 1 <<< 16

/-- A step of the quality index is 1.5. -/
def qStep : Nat := one * 3 / 2

/-- The quality index 0 stands for 2. -/
def qOffset : Nat := 2 * one

/-- The quality factor of a unit that was not measured, 15.5. -/
def qStandard : UInt32 := .ofNat (one * 31 / 2)

/-- The quality factor of an index, if neither the product nor the sum exceeds a register. -/
def qOfIndex? (index : UInt32) : Option UInt32 :=
  (Text.word32? (index.toNat * qStep)).bind fun steps => Text.word32? (steps.toNat + qOffset)

structure Remarks where
  f0 : List Log.Record := []
  redc : List Log.Record := []
  q : List Log.Record := []
  levels : List Log.Record := []

end Calibration

end Rumble
