import Rumble.Json.Fields
import Rumble.Log
import Rumble.Register

namespace Rumble

structure Config where
  /-- The registers with a path of their own; the others live at their default paths. -/
  paths : Register → Option String
  calibrationPath : String
  /-- Without a path the built-in catalog is used. -/
  catalogPath : Option String

inductive Config.Error where
  | io (fault : Fault)
  | malformed
  /-- The named path is empty. -/
  | validationFailed (field : String)
  deriving DecidableEq, Repr

def Config.Error.message : Config.Error → String
  | io fault => "config unreadable (" ++ fault.text ++ ")"
  | malformed => "malformed config"
  | validationFailed field => "validation failed: " ++ field ++ " path is empty"

namespace Config

def standardCalibrationPath : String := "/mnt/vendor/persist/haptics/cs40l25a.cal"
def calibrationVariable : String := "CALIBRATION_FILEPATH"
def catalogVariable : String := "EFFECT_CATALOG_PATH"

def standard : Config := ⟨fun r => some r.defaultPath, standardCalibrationPath, none⟩

instance : Inhabited Config := ⟨standard⟩

def path (c : Config) (r : Register) : String := (c.paths r).getD r.defaultPath

def complete (c : Config) : Config := { c with paths := fun r => some (c.path r) }

def erase (c : Config) (r : Register) : Config :=
  { c with paths := fun r' => if r' = r then none else c.paths r' }

def keys (c : Config) : List Register := Register.listed.filter fun r => (c.paths r).isSome

/-! ### JSON -/

def pathOfMember? : Option String × Json → Option (Register × String)
  | (key, v) => do return (← Register.ofName? (← key), ← v.text?)

/-- Reads the paths of registers; of several for one register the last one counts. -/
def pathsOfJson? : Json → Option (Register → Option String)
  | .object ms => do
    let pairs ← ms.mapM pathOfMember?
    return fun r => pairs.reverse.lookup r
  | _ => none

def catalogPathOfJson? : Json → Option (Option String)
  | .null => some none
  | v => v.text?.map some

def fieldNames : List String := ["control_points", "calibration_path", "catalog_path"]

/-- A field of an object that may be missing but not repeated. -/
def field? (ms : List (Option String × Json)) (name : String) : Option (Option Json) :=
  match ms.filter (·.1 = some name) with
  | [] => some none
  | [(_, v)] => some (some v)
  | _ => none

/-- The values of the fields, from an object, in which other fields are ignored, or from an array,
which may end early. -/
def fieldsOfJson? : Json → Option (List (Option Json))
  | .object ms => if ms.all (·.1.isSome) then fieldNames.mapM (field? ms) else none
  | .array vs =>
    if vs.length ≤ fieldNames.length then
      some (vs.map some ++ .replicate (fieldNames.length - vs.length) none)
    else none
  | _ => none

def orDefault {α : Type} (standard : α) (read? : Json → Option α) : Option Json → Option α
  | none => some standard
  | some v => read? v

def ofJson? (v : Json) : Option Config := do
  match ← fieldsOfJson? v with
  | [points, calibration, catalog] =>
    return ⟨← orDefault standard.paths pathsOfJson? points,
      ← orDefault standard.calibrationPath Json.text? calibration,
      ← orDefault standard.catalogPath catalogPathOfJson? catalog⟩
  | _ => none

/-- Reads a configuration. What an ignored field holds only has to have the shape of JSON. -/
def ofText (s : String) : Except Error Config :=
  match (Json.outline? s).bind ofJson? with
  | some c => .ok c.complete
  | none => .error .malformed

def load (content : Except Fault String) : Except Error Config :=
  match content with
  | .ok s => ofText s
  | .error fault => .error (.io fault)

def pathsJson (c : Config) : Json :=
  .record (Register.listed.filterMap fun r =>
    (c.paths r).map fun p => (r.name, .ofString p))

def toJson (c : Config) : Json :=
  .record
    [("control_points", c.pathsJson), ("calibration_path", .ofString c.calibrationPath),
      ("catalog_path", match c.catalogPath with
        | some p => .ofString p
        | none => .null)]

def text (c : Config) : String := c.toJson.render

/-! ### Environment and validation -/

/-- Applies the environment; a variable that is set to the empty text counts as set. -/
def applyEnvironment (c : Config) (lookup : String → Option String) : Config where
  paths r := lookup r.pathVariable <|> c.paths r
  calibrationPath := (lookup calibrationVariable).getD c.calibrationPath
  catalogPath := lookup catalogVariable <|> c.catalogPath

/-- The paths under the names that validation gives them, in the order in which it checks them. -/
def namedPaths (c : Config) : List (String × String) :=
  Register.all.map (fun r => (r.name, c.path r)) ++
    ("calibration_path", c.calibrationPath) ::
    (c.catalogPath.map fun p => ("catalog_path", p)).toList

def validate (c : Config) : Except Error Unit :=
  match c.namedPaths.find? (·.2 = "") with
  | none => .ok ()
  | some (name, _) => .error (.validationFailed name)

def environmentRecords (lookup : String → Option String) : List Log.Record :=
  Register.all.filterMap fun r =>
    (lookup r.pathVariable).map fun _ =>
      ⟨.debug, "config: " ++ r.name ++ " from $" ++ r.pathVariable⟩

end Config

end Rumble
