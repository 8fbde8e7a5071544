import Rumble.Json.Basic

namespace Rumble.Json

def text? : Json → Option String
  | .string s => s
  | _ => none

def bool? : Json → Option Bool
  | .bool b => some b
  | _ => none

def natural? : Json → Option Nat
  | .number n => n.natural?
  | _ => none

def word? (v : Json) : Option UInt32 := v.natural?.bind Text.word32?

def items? : Json → Option (List Json)
  | .array vs => some vs
  | _ => none

/-- The value of a key that occurs exactly once. -/
def only? (key : String) (members : List (Option String × Json)) : Option Json :=
  match members.filter (·.1 = some key) with
  | [(_, v)] => some v
  | _ => none

def fields? (names : List String) : Json → Option (List Json)
  | .object ms => names.mapM (only? · ms)
  | .array vs => if vs.length = names.length then some vs else none
  | _ => none

/-- Separates the tag that says which alternative a record is from its other fields. -/
def tagged? (tag : String) : Json → Option (String × Json)
  | .object ms => do
    let v ← only? tag ms
    return (← v.text?, .object (ms.filter (·.1 ≠ some tag)))
  | .array (v :: vs) => do return (← v.text?, .array vs)
  | _ => none

/-- The name of an alternative without fields: a string, or a key whose value is empty. -/
def name? : Json → Option String
  | .string s => s
  | .object [(k, .null)] => k
  | .object [(k, .object [])] => k
  | _ => none

/-- An alternative with one field: an object with its name as the only key. -/
def alternative? : Json → Option (String × Json)
  | .object [(some k, v)] => some (k, v)
  | _ => none

end Rumble.Json
