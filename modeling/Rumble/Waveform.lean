import Rumble.Text.Numeral

namespace Rumble.Waveform

/-- The slot of the short waveform that all simple effects share. -/
def simpleSlot : UInt32 := 2

def longSlot : UInt32 := 0

/-- The slot that plays whatever the trigger queue holds. -/
def queueSlot : UInt32 := 65534

/-- The volume of the queue slot, whose segments carry volumes of their own. -/
def queueVolume : UInt32 := 100

def doubleClickSilenceMs : UInt32 := 100

/-- The time that waking the signal processor takes. -/
def coldStartMs : UInt32 := 6

/-- The delay that each queued pause adds. -/
def pauseErrorMs : UInt32 := 1

def frequencyKHz : UInt32 := 48

def simpleLengthMs : UInt32 := 12

/-- Samples as milliseconds, rounded up. -/
def samplesToMs (samples : UInt32) : UInt32 :=
  .ofNat ((samples.toNat + frequencyKHz.toNat - 1) / frequencyKHz.toNat)

/-- Addition of durations that stops at the largest register value. -/
def addMs (a b : UInt32) : UInt32 := .ofNat (min (a.toNat + b.toNat) (UInt32.size - 1))

theorem toNat_addMs (a b : UInt32) :
    (addMs a b).toNat = min (a.toNat + b.toNat) (UInt32.size - 1) := by
  rw [addMs, UInt32.toNat_ofNat_of_lt']
  exact Nat.lt_of_le_of_lt (Nat.min_le_right _ _) (by decide)

theorem toNat_samplesToMs (samples : UInt32) :
    (samplesToMs samples).toNat = (samples.toNat + 47) / 48 := by
  have h := samples.toNat_lt
  rw [samplesToMs, UInt32.toNat_ofNat_of_lt']
  · rfl
  · have hk : frequencyKHz.toNat = 48 := rfl
    rw [hk]
    exact Nat.lt_of_le_of_lt (Nat.div_le_div_right (by omega : _ ≤ 2 ^ 32 + 47)) (by decide)

end Rumble.Waveform
