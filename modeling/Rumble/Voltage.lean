import Rumble.Effect

namespace Rumble

/-- Where a simple effect starts in the voltage table. -/
inductive Level where
  | tick
  | click
  | heavyClick
  deriving DecidableEq, Repr, Inhabited

namespace Level

def all : List Level := [tick, click, heavyClick]

def index : Level → Nat
  | tick => 1
  | click => 2
  | heavyClick => 3

def name : Level → String
  | tick => "tick"
  | click => "click"
  | heavyClick => "heavy_click"

def ofName? (s : String) : Option Level := all.find? (·.name = s)

def indexAt? (l : Level) (s : Strength) : Option Nat := (l.index + s.offset).toNat?

theorem ofName?_name (l : Level) : ofName? l.name = some l := by cases l <;> decide

end Level

structure VoltageTable where
  levels : Vector UInt32 6
  deriving DecidableEq, Repr

namespace VoltageTable

def size : Nat := 6

/-- The top of the output scale. -/
def maximum : UInt32 := 100

/-- The table in force without calibration. -/
def standard : VoltageTable := ⟨#v[60, 70, 80, 90, 100, 76]⟩

instance : Inhabited VoltageTable := ⟨standard⟩

/-- A list of any other length than six is refused with its length. -/
def ofList (xs : List UInt32) : Except Nat VoltageTable :=
  if h : xs.length = 6 then .ok ⟨⟨xs.toArray, by simpa using h⟩⟩ else .error xs.length

def toList (t : VoltageTable) : List UInt32 := t.levels.toList

def get? (t : VoltageTable) (i : Nat) : Option UInt32 := t.levels[i]?

theorem ofList_toList (t : VoltageTable) : ofList t.toList = .ok t := by
  have h : t.toList.length = 6 := by simp [toList]
  rw [ofList, dif_pos h]
  simp [toList, Vector.toList]

theorem toList_of_ofList {xs : List UInt32} {t : VoltageTable} (h : ofList xs = .ok t) :
    t.toList = xs := by
  unfold ofList at h
  split at h
  · cases h
    rfl
  · cases h

/-- The level of a simple effect at a strength. -/
def at? (t : VoltageTable) (l : Level) (s : Strength) : Option UInt32 :=
  (l.indexAt? s).bind t.get?

/-- The level at which an edge trigger plays. -/
def base (t : VoltageTable) : Level → UInt32
  | .tick => t.levels[1]
  | .click => t.levels[2]
  | .heavyClick => t.levels[3]

/-- The level of long vibrations and external control. -/
def overall (t : VoltageTable) : UInt32 := t.levels[5]

end VoltageTable

end Rumble
