import Rumble.Config
import Rumble.Proofs.DescriptorText

namespace Rumble.Config

/-! ### Completing -/

theorem path_complete (c : Config) (r : Register) : c.complete.path r = c.path r := rfl

theorem complete_eq_self_iff {c : Config} : c.complete = c ↔ ∀ r, (c.paths r).isSome := by
  constructor
  · intro h r
    rw [← h]
    rfl
  · intro h
    have hp : (fun r => some (c.path r)) = c.paths := by
      funext r
      obtain ⟨p, hp⟩ := Option.isSome_iff_exists.mp (h r)
      rw [path, hp, Option.getD_some]
    rw [complete, hp]

theorem complete_complete (c : Config) : c.complete.complete = c.complete :=
  complete_eq_self_iff.mpr fun _ => rfl

/-! ### Writing -/

/-- The registers with a path of their own and these paths, in listed order. -/
def points (c : Config) : List (Register × String) :=
  Register.listed.filterMap fun r => (c.paths r).map (r, ·)

theorem pathsJson_eq (c : Config) :
    c.pathsJson = .record (c.points.map fun (r, p) => (r.name, .ofString p)) := by
  rw [pathsJson, points, List.map_filterMap]
  simp only [Option.map_map, Function.comp_def]

theorem isWritable_pathsJson (c : Config) : c.pathsJson.IsWritable 1 := by
  rw [pathsJson_eq]
  apply Json.isWritable_record
  rw [List.forall_mem_map]
  exact fun m _ => .string m.2 0

def catalogJson (c : Config) : Json := (c.catalogPath.map .ofString).getD .null

theorem toJson_eq (c : Config) :
    c.toJson = .record [("control_points", c.pathsJson),
      ("calibration_path", .ofString c.calibrationPath), ("catalog_path", c.catalogJson)] := by
  rw [toJson, catalogJson]
  cases c.catalogPath <;> rfl

theorem isWritable_catalogJson (c : Config) (depth : Nat) : c.catalogJson.IsWritable depth := by
  rw [catalogJson]
  cases c.catalogPath with
  | none => exact .null depth
  | some p => exact .string p depth

theorem isWritable_toJson (c : Config) : c.toJson.IsWritable 2 := by
  rw [toJson_eq]
  apply Json.isWritable_record
  simp [c.isWritable_pathsJson, c.isWritable_catalogJson, Json.ofString, Json.IsWritable.string]

/-! ### Reading -/

theorem pathsOfJson?_pathsJson (c : Config) : pathsOfJson? c.pathsJson = some c.paths := by
  have hm : ∀ m ∈ c.points, pathOfMember? (some m.1.name, .ofString m.2) = some m := fun m _ => by
    simp [pathOfMember?, Register.ofName?_name, Json.text?_ofString]
  have hs := Json.mapM_map_of_forall hm
  rw [List.map_id'] at hs
  -- Every register is listed, so the pairs make up the whole map again.
  have hl : (fun r => c.points.reverse.lookup r) = c.paths :=
    funext (lookup_reverse_filterMap c.paths Register.mem_listed)
  rw [pathsJson_eq, Json.record, List.map_map, pathsOfJson?]
  exact (congrArg (Option.bind · _) hs).trans (congrArg some hl)

theorem catalogPathOfJson?_catalogJson (c : Config) :
    catalogPathOfJson? c.catalogJson = some c.catalogPath := by
  rw [catalogJson]
  cases c.catalogPath <;> rfl

theorem fieldsOfJson?_toJson (c : Config) : fieldsOfJson? c.toJson =
    some [some c.pathsJson, some (.ofString c.calibrationPath), some c.catalogJson] := by
  rw [toJson_eq]
  rfl

theorem ofJson?_toJson (c : Config) : ofJson? c.toJson = some c := by
  rw [ofJson?, fieldsOfJson?_toJson]
  simp [orDefault, pathsOfJson?_pathsJson, Json.text?_ofString, catalogPathOfJson?_catalogJson]

theorem ofText_text (c : Config) : ofText c.text = .ok c.complete := by
  rw [ofText, text, Json.outline?_render c.isWritable_toJson, Option.bind_some, ofJson?_toJson]

/-- What is read back from the text of a configuration has all its paths, whatever characters are
in them, and differs from it only in that missing registers are listed with their default paths. -/
theorem read_back (c : Config) :
    ∃ c', ofText c.text = .ok c' ∧
      c'.calibrationPath = c.calibrationPath ∧ c'.catalogPath = c.catalogPath ∧
      (∀ r, c'.path r = c.path r) ∧
      (∀ r, c'.paths r = some ((c.paths r).getD r.defaultPath)) ∧
      (c' = c ↔ ∀ r, (c.paths r).isSome) ∧
      ofText c'.text = .ok c' := by
  refine ⟨c.complete, c.ofText_text, rfl, rfl, c.path_complete, fun _ => rfl,
    complete_eq_self_iff, ?_⟩
  rw [ofText_text, complete_complete]

example : text ⟨fun _ => none, "a\"\\\x01é", none⟩ = "\x7b\"control_points\":\x7b\x7d," ++
    "\"calibration_path\":\"a\\\"\\\\\\u0001é\",\"catalog_path\":null\x7d" := by
  decide

end Rumble.Config
