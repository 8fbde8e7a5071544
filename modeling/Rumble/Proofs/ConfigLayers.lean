import Mathlib.Data.List.Nodup
import Mathlib.Logic.Function.Basic
import Rumble.Proofs.ConfigText

namespace Rumble

namespace Json

/-- The value of a key; of several the last one counts. -/
def member? (key : String) : Json → Option Json
  | .object ms => ms.reverse.lookup (some key)
  | _ => none

/-- A field of a record, which stands under its name in an object and at its place in an array. -/
def part? (place : Nat) (name : String) : Json → Option Json
  | .array vs => vs[place]?
  | v => v.member? name

theorem mapM_cons_eq_some {α β : Type} {f : α → Option β} {x : α} {xs : List α} {ys : List β}
    (h : (x :: xs).mapM f = some ys) : ∃ y ys', f x = some y ∧ xs.mapM f = some ys' ∧
      ys = y :: ys' := by
  simp only [List.mapM_cons, Option.pure_def, Option.bind_eq_bind, Option.bind_eq_some_iff,
    Option.some.injEq] at h
  obtain ⟨y, hy, ys', hs, rfl⟩ := h
  exact ⟨y, ys', hy, hs, rfl⟩

theorem mapM_reverse {α β : Type} {f : α → Option β} {xs : List α} {ys : List β}
    (h : xs.mapM f = some ys) : xs.reverse.mapM f = some ys.reverse := by
  obtain ⟨hs, rfl⟩ := mapM_eq_some_iff.mp h
  exact mapM_eq_some_iff.mpr ⟨fun x hx => hs x (List.mem_reverse.mp hx), List.filterMap_reverse⟩

end Json

theorem Register.name_injective : Function.Injective Register.name := fun r r' h =>
  Option.some.inj (r.ofName?_name ▸ r'.ofName?_name ▸ congrArg ofName? h)

theorem Register.name_of_ofName? {s : String} {r : Register} (h : ofName? s = some r) :
    r.name = s := by
  simpa using List.find?_some h

/-- What one source says about a configuration. -/
structure Layer where
  path? : Register → Option String
  calibrationPath? : Option String
  catalogPath? : Option String

namespace Layer

def ofJson (v : Json) : Layer where
  path? r := ((v.part? 0 "control_points").bind (Json.member? r.name)).bind Json.text?
  calibrationPath? := (v.part? 1 "calibration_path").bind Json.text?
  catalogPath? := (v.part? 2 "catalog_path").bind Json.text?

def ofText (s : String) : Layer :=
  ((Json.outline? s).map ofJson).getD ⟨fun _ => none, none, none⟩

def ofEnvironment (lookup : String → Option String) : Layer :=
  ⟨fun r => lookup r.pathVariable, lookup Config.calibrationVariable, lookup Config.catalogVariable⟩

end Layer

namespace Config

attribute [ext] Config

/-- For each path the first layer that has one counts, and the default if there is none. -/
def settle (layers : List Layer) : Config where
  paths r := some ((layers.findSome? (·.path? r)).getD r.defaultPath)
  calibrationPath := (layers.findSome? (·.calibrationPath?)).getD standardCalibrationPath
  catalogPath := layers.findSome? (·.catalogPath?)

/-! ### Texts -/

theorem eq_member?_of_field? {ms : List (Option String × Json)} {name : String} {x : Option Json}
    (h : field? ms name = some x) : x = (Json.object ms).member? name := by
  have hl : (Json.object ms).member? name =
      (ms.filter (·.1 = some name)).reverse.lookup (some name) := by
    rw [← List.filter_reverse, lookup_filter]
    rfl
  rw [hl]
  rw [field?] at h
  split at h
  · next hf =>
    rw [hf]
    exact (Option.some.inj h).symm
  · next key v hf =>
    have hm : (key, v) ∈ ms.filter (·.1 = some name) := by
      rw [hf]
      exact List.mem_singleton_self _
    have hk : key = some name := by
      simpa using (List.mem_filter.mp hm).2
    rw [hf, hk, ← Option.some.inj h]
    simp
  · cases h

theorem eq_parts_of_fieldsOfJson? {v : Json} {fields : List (Option Json)}
    (h : fieldsOfJson? v = some fields) :
    fields = [v.part? 0 "control_points", v.part? 1 "calibration_path",
      v.part? 2 "catalog_path"] := by
  cases v with
  | object ms =>
    rw [fieldsOfJson?] at h
    split at h
    · obtain ⟨x, _, hx, hxs, rfl⟩ := Json.mapM_cons_eq_some h
      obtain ⟨y, _, hy, hys, rfl⟩ := Json.mapM_cons_eq_some hxs
      obtain ⟨z, _, hz, hzs, rfl⟩ := Json.mapM_cons_eq_some hys
      cases hzs
      rw [eq_member?_of_field? hx, eq_member?_of_field? hy, eq_member?_of_field? hz]
      rfl
    · cases h
  | array vs =>
    rw [fieldsOfJson?] at h
    split at h
    · next hl =>
      cases h
      -- An array may end early, so each length is a case of its own.
      match vs, hl with
      | [], _ | [_], _ | [_, _], _ | [_, _, _], _ => rfl
    · cases h
  | _ => cases h

theorem pathOfMember?_eq_some {m : Option String × Json} {r : Register} {p : String}
    (h : pathOfMember? m = some (r, p)) : m.1 = some r.name ∧ m.2.text? = some p := by
  obtain ⟨key, v⟩ := m
  simp only [pathOfMember?, Option.pure_def, Option.bind_eq_bind, Option.bind_eq_some_iff,
    Option.some.injEq, Prod.mk.injEq] at h
  obtain ⟨s, rfl, r, hr, p, hp, rfl, rfl⟩ := h
  exact ⟨congrArg some (Register.name_of_ofName? hr).symm, hp⟩

theorem lookup_of_mapM {ms : List (Option String × Json)} {pairs : List (Register × String)}
    (h : ms.mapM pathOfMember? = some pairs) (r : Register) :
    pairs.lookup r = (ms.lookup (some r.name)).bind Json.text? := by
  induction ms generalizing pairs with
  | nil =>
    cases h
    rfl
  | cons m ms ih =>
    obtain ⟨⟨r', p⟩, pairs', hm, hs, rfl⟩ := Json.mapM_cons_eq_some h
    obtain ⟨key, v⟩ := m
    obtain ⟨rfl, hp⟩ := pathOfMember?_eq_some hm
    by_cases hr : r = r'
    · rw [hr, List.lookup_cons_self, List.lookup_cons_self]
      exact hp.symm
    · have hn : some r.name ≠ some r'.name := fun he =>
        hr (Register.name_injective (Option.some.inj he))
      rw [List.lookup_cons, List.lookup_cons, beq_eq_false_iff_ne.mpr hr,
        beq_eq_false_iff_ne.mpr hn]
      exact ih hs

theorem eq_member?_of_pathsOfJson? {v : Json} {paths : Register → Option String}
    (h : pathsOfJson? v = some paths) (r : Register) :
    paths r = (v.member? r.name).bind Json.text? := by
  cases v with
  | object ms =>
    obtain ⟨pairs, hp, h⟩ := Option.bind_eq_some_iff.mp h
    rw [← Option.some.inj h]
    -- Last values are first ones from behind.
    exact lookup_of_mapM (Json.mapM_reverse hp) r
  | _ => cases h

theorem eq_text?_of_catalogPathOfJson? {v : Json} {p : Option String}
    (h : catalogPathOfJson? v = some p) : p = v.text? := by
  cases v with
  | string s =>
    obtain ⟨t, ht, rfl⟩ := Option.map_eq_some_iff.mp h
    exact ht.symm
  | null => exact (Option.some.inj h).symm
  | _ => cases h

theorem orDefault_eq_some {α : Type} {standard y : α} {read? : Json → Option α} {x : Option Json}
    (h : orDefault standard read? x = some y) :
    x = none ∧ y = standard ∨ ∃ v, x = some v ∧ read? v = some y := by
  cases x with
  | none => exact .inl ⟨rfl, (Option.some.inj h).symm⟩
  | some v => exact .inr ⟨v, rfl, h⟩

/-- What is read from JSON and completed is what it says above the defaults. -/
theorem complete_of_ofJson? {v : Json} {c : Config} (h : ofJson? v = some c) :
    c.complete = settle [.ofJson v] := by
  obtain ⟨fields, hf, h⟩ := Option.bind_eq_some_iff.mp h
  rw [eq_parts_of_fieldsOfJson? hf] at h
  simp only [Option.pure_def, Option.bind_eq_bind, Option.bind_eq_some_iff,
    Option.some.injEq] at h
  obtain ⟨paths, hp, calibrationPath, hl, catalogPath, hc, rfl⟩ := h
  -- Each field is missing and has its default, or is there and was read.
  apply Config.ext
  · funext r
    simp only [settle, List.findSome?_singleton, Layer.ofJson, complete, path]
    rcases orDefault_eq_some hp with ⟨hn, rfl⟩ | ⟨ps, hs, hp⟩
    · rw [hn]
      rfl
    · rw [hs, eq_member?_of_pathsOfJson? hp, Option.bind_some]
  · simp only [settle, List.findSome?_singleton, Layer.ofJson, complete]
    rcases orDefault_eq_some hl with ⟨hn, rfl⟩ | ⟨p, hs, hl⟩
    · rw [hn]
      rfl
    · rw [hs, Option.bind_some, hl, Option.getD_some]
  · simp only [settle, List.findSome?_singleton, Layer.ofJson, complete]
    rcases orDefault_eq_some hc with ⟨hn, rfl⟩ | ⟨p, hs, hc⟩
    · rw [hn]
      rfl
    · rw [hs, Option.bind_some, eq_text?_of_catalogPathOfJson? hc]

example : (Layer.ofJson (.record [("control_points",
    .record [("q", .ofString "/a"), ("q", .ofString "/b")])])).path? .q = some "/b" := rfl

theorem eq_settle_of_ofText {s : String} {c : Config} (h : ofText s = .ok c) :
    c = settle [.ofText s] := by
  rw [ofText] at h
  split at h
  · next c' hc =>
    obtain ⟨v, hv, hj⟩ := Option.bind_eq_some_iff.mp hc
    rw [← Except.ok.inj h, complete_of_ofJson? hj, Layer.ofText, hv]
    rfl
  · cases h

end Config

theorem Layer.ofText_text (c : Config) :
    ofText c.text = ⟨c.paths, some c.calibrationPath, c.catalogPath⟩ := by
  have hp (r : Register) : (c.pathsJson.member? r.name).bind Json.text? = c.paths r :=
    (Config.eq_member?_of_pathsOfJson? c.pathsOfJson?_pathsJson r).symm
  have hc : c.catalogJson.text? = c.catalogPath :=
    (Config.eq_text?_of_catalogPathOfJson? c.catalogPathOfJson?_catalogJson).symm
  have hf := Config.eq_parts_of_fieldsOfJson? c.fieldsOfJson?_toJson
  simp only [List.cons.injEq, and_true] at hf
  obtain ⟨h₀, h₁, h₂⟩ := hf
  rw [ofText, Config.text, Json.outline?_render c.isWritable_toJson, Option.map_some,
    Option.getD_some, ofJson, ← h₀, ← h₁, ← h₂]
  simp only [Option.bind_some, hp, hc, Json.text?_ofString]

namespace Config

/-! ### The environment -/

/-- The environment is a layer above all others. -/
theorem applyEnvironment_settle (layers : List Layer) (lookup : String → Option String) :
    (settle layers).applyEnvironment lookup = settle (.ofEnvironment lookup :: layers) := by
  have hs {α : Type} (f : Layer → Option α) : (.ofEnvironment lookup :: layers).findSome? f =
      (f (.ofEnvironment lookup)).or (layers.findSome? f) := by
    rw [← List.singleton_append, List.findSome?_append, List.findSome?_singleton]
  simp only [settle, hs]
  simp [applyEnvironment, Layer.ofEnvironment, Option.getD_or]

theorem applyEnvironment_applyEnvironment (c : Config) (lookup : String → Option String) :
    (c.applyEnvironment lookup).applyEnvironment lookup = c.applyEnvironment lookup := by
  simp [applyEnvironment, ← Option.or_assoc, ← Option.getD_or]

def variableNames : List String :=
  Register.all.map Register.pathVariable ++ [calibrationVariable, catalogVariable]

theorem nodup_variableNames : variableNames.Nodup := by decide

theorem pathVariable_injective : Function.Injective Register.pathVariable := fun r r' =>
  List.inj_on_of_nodup_map (List.nodup_append.mp nodup_variableNames).1 r.mem_all r'.mem_all

theorem pathVariable_ne {x : String} (hx : x ∈ [calibrationVariable, catalogVariable])
    (r : Register) : r.pathVariable ≠ x :=
  (List.nodup_append.mp nodup_variableNames).2.2 _ (List.mem_map_of_mem r.mem_all) x hx

theorem calibrationVariable_ne : calibrationVariable ≠ catalogVariable := by decide

open Function

theorem applyEnvironment_update_pathVariable (c : Config) (lookup : String → Option String)
    (r : Register) (p : String) :
    c.applyEnvironment (update lookup r.pathVariable (some p)) =
      { c.applyEnvironment lookup with
        paths := update (c.applyEnvironment lookup).paths r (some p) } := by
  have hl : calibrationVariable ≠ r.pathVariable := (pathVariable_ne (by simp) r).symm
  have hc : catalogVariable ≠ r.pathVariable := (pathVariable_ne (by simp) r).symm
  apply Config.ext
  · funext r'
    simp only [applyEnvironment]
    by_cases hr : r' = r
    · rw [hr, update_self, update_self]
      rfl
    · rw [update_of_ne (pathVariable_injective.ne hr), update_of_ne hr]
  · simp only [applyEnvironment, update_of_ne hl]
  · simp only [applyEnvironment, update_of_ne hc]

theorem applyEnvironment_update_calibrationVariable (c : Config)
    (lookup : String → Option String) (p : String) :
    c.applyEnvironment (update lookup calibrationVariable (some p)) =
      { c.applyEnvironment lookup with calibrationPath := p } := by
  have hp (r : Register) : r.pathVariable ≠ calibrationVariable := pathVariable_ne (by simp) r
  simp [applyEnvironment, update_of_ne, hp, calibrationVariable_ne.symm]

theorem applyEnvironment_update_catalogVariable (c : Config)
    (lookup : String → Option String) (p : String) :
    c.applyEnvironment (update lookup catalogVariable (some p)) =
      { c.applyEnvironment lookup with catalogPath := some p } := by
  have hp (r : Register) : r.pathVariable ≠ catalogVariable := pathVariable_ne (by simp) r
  simp [applyEnvironment, update_of_ne, hp, calibrationVariable_ne]

theorem applyEnvironment_update_of_not_mem (c : Config) (lookup : String → Option String)
    {x : String} (hx : x ∉ variableNames) (p : String) :
    c.applyEnvironment (update lookup x (some p)) = c.applyEnvironment lookup := by
  have hp (r : Register) : r.pathVariable ≠ x := fun he =>
    hx (List.mem_append_left _ (List.mem_map.mpr ⟨r, r.mem_all, he⟩))
  have hl : calibrationVariable ≠ x := fun he => hx (he ▸ List.mem_append_right _ (by simp))
  have hc : catalogVariable ≠ x := fun he => hx (he ▸ List.mem_append_right _ (by simp))
  simp [applyEnvironment, update_of_ne, hp, hl, hc]

/-! ### Validation -/

theorem validate_eq_ok_iff (c : Config) : c.validate = .ok () ↔
    (∀ r, c.path r ≠ "") ∧ c.calibrationPath ≠ "" ∧ c.catalogPath ≠ some "" := by
  have hv : c.validate = .ok () ↔ ∀ m ∈ c.namedPaths, m.2 ≠ "" := by
    rw [validate]
    split
    · next h => simpa using h
    · next h =>
      have hm := List.mem_of_find?_eq_some h
      have hp := List.find?_some h
      simp only [reduceCtorEq, false_iff, not_forall]
      exact ⟨_, hm, fun hn => hn (by simpa using hp)⟩
  rw [hv, namedPaths, List.forall_mem_append, List.forall_mem_map, List.forall_mem_cons]
  refine and_congr ⟨fun h r => h r r.mem_all, fun h r _ => h r⟩ (and_congr Iff.rfl ?_)
  cases c.catalogPath <;> simp

theorem validate_eq_error {c : Config} {front : List (String × String)} {name : String}
    (h : ∃ back, c.namedPaths = front ++ (name, "") :: back) (hf : ∀ m ∈ front, m.2 ≠ "") :
    c.validate = .error (.validationFailed name) := by
  obtain ⟨back, h⟩ := h
  have hs : c.namedPaths.find? (·.2 = "") = some (name, "") :=
    List.find?_eq_some_iff_append.mpr ⟨by simp, front, back, h, by simpa using hf⟩
  rw [validate, hs]

theorem validate_of_path_eq_empty {c : Config} {front back : List Register} {r : Register}
    (h : Register.all = front ++ r :: back) (hf : ∀ r' ∈ front, c.path r' ≠ "")
    (hr : c.path r = "") : c.validate = .error (.validationFailed r.name) := by
  have hn : ∃ back, c.namedPaths =
      front.map (fun r => (r.name, c.path r)) ++ (r.name, "") :: back := by
    rw [namedPaths, h, List.map_append, List.map_cons, hr, List.append_assoc, List.cons_append]
    exact ⟨_, rfl⟩
  apply validate_eq_error hn
  rw [List.forall_mem_map]
  exact hf

theorem validate_of_calibrationPath_eq_empty {c : Config} (hp : ∀ r, c.path r ≠ "")
    (hl : c.calibrationPath = "") : c.validate = .error (.validationFailed "calibration_path") := by
  have hn : ∃ back, c.namedPaths =
      Register.all.map (fun r => (r.name, c.path r)) ++ ("calibration_path", "") :: back := by
    rw [namedPaths, hl]
    exact ⟨_, rfl⟩
  apply validate_eq_error hn
  rw [List.forall_mem_map]
  exact fun r _ => hp r

theorem validate_of_catalogPath_eq_empty {c : Config} (hp : ∀ r, c.path r ≠ "")
    (hl : c.calibrationPath ≠ "") (hc : c.catalogPath = some "") :
    c.validate = .error (.validationFailed "catalog_path") := by
  have hn : ∃ back, c.namedPaths = (Register.all.map (fun r => (r.name, c.path r)) ++
      [("calibration_path", c.calibrationPath)]) ++ ("catalog_path", "") :: back := by
    exact ⟨[], by simp [namedPaths, hc]⟩
  apply validate_eq_error hn
  rw [List.forall_mem_append, List.forall_mem_map, List.forall_mem_singleton]
  exact ⟨fun r _ => hp r, hl⟩

/-- After the environment, each path is the one that its variable has, even an empty one, or else
the one that the text gives, or else the default one, and every register is listed. Each variable
moves its own path and nothing else, and applying an environment again changes nothing. Validation
passes where no path is empty and otherwise names the first one that is. -/
theorem precedence :
    (∀ s c lookup, ofText s = .ok c →
      c.applyEnvironment lookup = settle [.ofEnvironment lookup, .ofText s]) ∧
    (∀ lookup, standard.applyEnvironment lookup = settle [.ofEnvironment lookup]) ∧
    (∀ (c : Config) lookup r p, c.applyEnvironment (update lookup r.pathVariable (some p)) =
      { c.applyEnvironment lookup with
        paths := update (c.applyEnvironment lookup).paths r (some p) }) ∧
    (∀ (c : Config) lookup p, c.applyEnvironment (update lookup calibrationVariable (some p)) =
      { c.applyEnvironment lookup with calibrationPath := p }) ∧
    (∀ (c : Config) lookup p, c.applyEnvironment (update lookup catalogVariable (some p)) =
      { c.applyEnvironment lookup with catalogPath := some p }) ∧
    (∀ (c : Config) lookup, ∀ x ∉ variableNames, ∀ p,
      c.applyEnvironment (update lookup x (some p)) = c.applyEnvironment lookup) ∧
    (∀ (c : Config) lookup,
      (c.applyEnvironment lookup).applyEnvironment lookup = c.applyEnvironment lookup) ∧
    ∀ c : Config,
      (c.validate = .ok () ↔
        (∀ r, c.path r ≠ "") ∧ c.calibrationPath ≠ "" ∧ c.catalogPath ≠ some "") ∧
      (∀ front r back, Register.all = front ++ r :: back → (∀ r' ∈ front, c.path r' ≠ "") →
        c.path r = "" → c.validate = .error (.validationFailed r.name)) ∧
      ((∀ r, c.path r ≠ "") → c.calibrationPath = "" →
        c.validate = .error (.validationFailed "calibration_path")) ∧
      ((∀ r, c.path r ≠ "") → c.calibrationPath ≠ "" → c.catalogPath = some "" →
        c.validate = .error (.validationFailed "catalog_path")) := by
  refine ⟨?_, applyEnvironment_settle [], applyEnvironment_update_pathVariable,
    applyEnvironment_update_calibrationVariable, applyEnvironment_update_catalogVariable,
    fun c lookup x hx => c.applyEnvironment_update_of_not_mem lookup hx,
    applyEnvironment_applyEnvironment, fun c => ?_⟩
  · intro s c lookup h
    rw [eq_settle_of_ofText h, applyEnvironment_settle]
  · exact ⟨c.validate_eq_ok_iff, fun _ _ _ => validate_of_path_eq_empty,
      validate_of_calibrationPath_eq_empty, validate_of_catalogPath_eq_empty⟩

/-- An empty variable wins over the text, and the first of several is refused. -/
theorem precedence_of_empty_variable : ∃ s c e,
    s = "\x7b\"control_points\":\x7b\"q\":\"/q\"\x7d," ++
      "\"calibration_path\":\"/c\",\"catalog_path\":null\x7d" ∧
    ofText s = .ok c ∧
    c.applyEnvironment ([("F0_FILEPATH", "/f0"), ("CALIBRATION_FILEPATH", "")].lookup ·) = e ∧
    e.path .f0 = "/f0" ∧ e.path .q = "/q" ∧ e.path .state = "/sys/class/leds/vibrator/state" ∧
    e.calibrationPath = "" ∧ e.catalogPath = none ∧
    e.applyEnvironment (update (fun _ => none) "HOME" (some "")) = e ∧
    e.validate = .error (.validationFailed "calibration_path") ∧
    (e.applyEnvironment ([("REDC_FILEPATH", "")].lookup ·)).validate =
      .error (.validationFailed "redc") ∧
    (standard.applyEnvironment ([("EFFECT_CATALOG_PATH", "")].lookup ·)).validate =
      .error (.validationFailed "catalog_path") := by
  have hc := ofText_text ⟨([(.q, "/q")].lookup ·), "/c", none⟩
  obtain ⟨hs, -, -, -, -, hn, -, hv⟩ := precedence
  have he := hs _ _ ([("F0_FILEPATH", "/f0"), ("CALIBRATION_FILEPATH", "")].lookup ·) hc
  rw [Layer.ofText_text] at he
  refine ⟨_, _, _, by decide, hc, he, rfl, rfl, rfl, rfl, rfl, ?_, ?_, ?_, ?_⟩
  · exact hn _ (fun _ => none) "HOME" (by decide) ""
  · exact (hv _).2.2.1 (fun r => by cases r <;> decide) rfl
  · exact (hv _).2.1 [.f0] .redc (Register.all.drop 2) rfl
      (List.forall_mem_singleton.mpr (by decide)) rfl
  · exact (hv _).2.2.2 (fun r => by cases r <;> decide) (by decide) rfl

end Config

end Rumble
