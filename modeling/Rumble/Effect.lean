import Rumble.Text.Blank
import Rumble.Text.Numeral

namespace Rumble

inductive Effect where
  | click
  | doubleClick
  | tick
  | thud
  | pop
  | heavyClick
  | ringtone1
  | ringtone2
  | ringtone3
  | ringtone4
  | ringtone5
  | ringtone6
  | ringtone7
  | ringtone8
  | ringtone9
  | ringtone10
  | ringtone11
  | ringtone12
  | ringtone13
  | ringtone14
  | ringtone15
  | textureTick
  deriving DecidableEq, Repr, Inhabited

namespace Effect

/-- Every effect; its place in this list is its id. -/
def all : List Effect :=
  [click, doubleClick, tick, thud, pop, heavyClick, ringtone1, ringtone2, ringtone3, ringtone4,
    ringtone5, ringtone6, ringtone7, ringtone8, ringtone9, ringtone10, ringtone11, ringtone12,
    ringtone13, ringtone14, ringtone15, textureTick]

def id (e : Effect) : Nat := all.idxOf e

def ofId? (n : Nat) : Option Effect := all[n]?

def name : Effect → String
  | click => "click"
  | doubleClick => "double_click"
  | tick => "tick"
  | thud => "thud"
  | pop => "pop"
  | heavyClick => "heavy_click"
  | ringtone1 => "ringtone1"
  | ringtone2 => "ringtone2"
  | ringtone3 => "ringtone3"
  | ringtone4 => "ringtone4"
  | ringtone5 => "ringtone5"
  | ringtone6 => "ringtone6"
  | ringtone7 => "ringtone7"
  | ringtone8 => "ringtone8"
  | ringtone9 => "ringtone9"
  | ringtone10 => "ringtone10"
  | ringtone11 => "ringtone11"
  | ringtone12 => "ringtone12"
  | ringtone13 => "ringtone13"
  | ringtone14 => "ringtone14"
  | ringtone15 => "ringtone15"
  | textureTick => "texture_tick"

def ofName? (s : String) : Option Effect := all.find? (·.name = s)

/-- A spelling without dashes, underscores and letter case. -/
def squash (cs : List Char) : List Char :=
  (cs.filter fun c => c ≠ '-' && c ≠ '_').map Char.toLower

/-- Reads an effect. A numeral below 2^32 is an id and never a name. -/
def parse? (s : String) : Option Effect :=
  let cs := Text.trim s.toList
  match Text.readWord? cs with
  | some n => ofId? n.toNat
  | none => all.find? fun e => squash e.name.toList = squash cs

theorem mem_all (e : Effect) : e ∈ all := by cases e <;> decide

theorem ofName?_name (e : Effect) : ofName? e.name = some e := by cases e <;> decide

end Effect

inductive Strength where
  | light
  | medium
  | strong
  deriving DecidableEq, Repr, Inhabited

namespace Strength

def all : List Strength := [light, medium, strong]

def index : Strength → Nat
  | light => 0
  | medium => 1
  | strong => 2

def ofIndex? (n : Nat) : Option Strength := all[n]?

def name : Strength → String
  | light => "light"
  | medium => "medium"
  | strong => "strong"

def ofName? (s : String) : Option Strength := all.find? (·.name = s)

/-- The shift that a strength makes in the voltage table. -/
def offset : Strength → Int
  | light => -1
  | medium => 0
  | strong => 1

/-- Reads a name, in any letter case, or the single digit of an index. -/
def parse? (s : String) : Option Strength :=
  let cs := (Text.trim s.toList).map Char.toLower
  all.find? fun t => cs = t.name.toList ∨ cs = Text.decimal t.index

theorem mem_all (s : Strength) : s ∈ all := by cases s <;> decide

theorem ofName?_name (s : Strength) : ofName? s.name = some s := by cases s <;> decide

end Strength

structure PerStrength (α : Type) where
  light : α
  medium : α
  strong : α
  deriving DecidableEq, Repr

namespace PerStrength

def get {α : Type} (v : PerStrength α) : Strength → α
  | .light => v.light
  | .medium => v.medium
  | .strong => v.strong

def const {α : Type} (a : α) : PerStrength α := ⟨a, a, a⟩

def toList {α : Type} (v : PerStrength α) : List α := [v.light, v.medium, v.strong]

@[simp] theorem get_const {α : Type} (a : α) (s : Strength) : (const a).get s = a := by
  cases s <;> rfl

end PerStrength

end Rumble
