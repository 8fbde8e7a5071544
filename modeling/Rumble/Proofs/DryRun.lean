import Rumble.CommandLine.Run
import Rumble.Proofs.DryRunOption
import Rumble.Proofs.FieldIndependence
import Rumble.Proofs.WireFormat

namespace Rumble

/-! ### Lines -/

def Text.ofLines : List String → String
  | [] => ""
  | l :: ls => l ++ "\n" ++ ofLines ls

theorem Text.intercalate_lineFeed {α : Type} (line : α → String) (xs : List α) :
    "".intercalate (xs.map fun x => line x ++ "\n") = ofLines (xs.map line) := by
  induction xs with
  | nil => rfl
  | cons x xs ih =>
    rw [List.map_cons, List.map_cons, ofLines, ← ih]
    cases xs with
    | nil => simp
    | cons y ys => simp

theorem Outcome.isWritable_toJson (o : Outcome) : o.toJson.IsWritable 1 := by
  cases o <;>
    apply Json.isWritable_record <;>
    simp [Json.ofString, Json.IsWritable.string, Json.IsWritable.bool, Json.isWritable_ofWord]

/-! ### On a fresh bank -/

namespace Access

def written? : Access → Option (Register × String)
  | write r value => some (r, value)
  | _ => none

theorem entry?_true : entry? (fun _ => true) = written? := by
  funext a
  cases a <;> rfl

end Access

namespace Catalog

/-- A register that reads zero tells no length. -/
theorem measured_zero (c : Catalog) : c.measured (.ok "0") = c := by
  apply measured_eq_self
  rintro raw samples ⟨⟩ h
  exact (Option.some.inj h).symm

end Catalog

namespace Controller

open Program

variable (c : Controller)

theorem value_start_fresh (cal : Calibration) (remarks : Calibration.Remarks) (catalog : Catalog) :
    ((start cal remarks catalog).run Bank.device (.without [])).value =
      ⟨catalog, cal.levels.getD .standard⟩ := by
  obtain ⟨answer, ha, hv⟩ := exists_reading_start cal remarks catalog Bank.device (.without [])
  rw [readings_start_bank] at ha
  obtain rfl := List.singleton_inj.mp ha
  rw [hv]
  exact congrArg (Controller.mk · _) catalog.measured_zero

/-- What an operation cannot tell from a fresh bank: one with all registers that is not under
external control. -/
theorem alike_fresh {b : Bank} (h : b.Flagged [] false) :
    Bank.device.Alike (∀ r, · = .read r → r = .aspEnable) b Bank.device (.without []) := by
  have hf := Bank.Flagged.without []
  apply Bank.alike_of_agree
  · intro r
    rw [h.has_eq, hf.has_eq]
  · intro r hr
    obtain rfl := hr r rfl
    rw [h.flag_eq List.not_mem_nil, hf.flag_eq List.not_mem_nil]

theorem attempts_handle {σ : Type} (command : Command) (device : Device σ) (st : σ) :
    c.Attempts command.operation ((c.handle command).run device st).accesses := by
  have h := attempts_operate c (.handle command) device st
  rw [operate, Run.accesses_map] at h
  exact h

/-- After the startup a request is answered as on a fresh bank, and adds the writes that it makes
there to the journal. -/
theorem run_handle_fresh {b : Bank} (h : b.Flagged [] false) (command : Command) :
    let run := (c.handle command).run Bank.device b
    let direct := (c.handle command).run Bank.device (.without [])
    run.value = direct.value ∧
      run.state.journal = b.journal ++ direct.accesses.filterMap Access.written? := by
  intro run direct
  have ha := c.attempts_handle command Bank.device b
  obtain ⟨hv, hc, -⟩ := (alike_fresh h).run (c.handle command) fun a hm r hr =>
    eq_aspEnable_of_attempts ha (hr ▸ hm)
  have hs : run.state = Bank.device.after run.accesses b :=
    (run_eq_of_accesses (c.handle command) Bank.device b).2
  have hb : b.has = fun _ => true := by
    funext r
    rw [h.has_eq, decide_eq_true List.not_mem_nil]
  have hw : run.accesses = direct.accesses := congrArg (List.map Call.access) hc
  refine ⟨hv, ?_⟩
  rw [hs, Bank.journal_after, hb, hw, Access.entry?_true]

theorem value_activate {σ : Type} (durationMs : UInt32) (device : Device σ) (st : σ) :
    ((c.activate durationMs).run device st).value = .ok () := by
  simp only [activate, run_bind, run_pure]

theorem value_deactivate {b : Bank} (h : b.has .activate) :
    (c.deactivate.run Bank.device b).value = .ok () := by
  rw [deactivate, value_overall_then_flag, if_pos h]

theorem code_handle_fresh (command : Command) :
    ((c.handle command).run Bank.device (.without [])).value.code = .ok ↔
      ¬(command = .setAmplitude 0 ∨ ∃ e s, command = .perform e s ∧ c.catalog.get? e = none) := by
  have hf := Bank.Flagged.without []
  have hd := c.dispatches Bank.device (.without []) command
  cases command with
  | on ms => exact iff_of_true (hd.ok.mpr ⟨(), c.value_activate ms _ _⟩) (by simp)
  | off =>
    exact iff_of_true (hd.ok.mpr ⟨(), c.value_deactivate (hf.has_eq .activate)⟩) (by simp)
  | setAmplitude a =>
    have hv := (run_setAmplitude_flagged hf a).1
    rw [hd.ok, hv]
    by_cases ha : a = 0 <;> simp [ha]
  | setExternalControl enabled =>
    have hv := value_setExternalControl (c := c) hf enabled
    exact iff_of_true (hd.ok.mpr ⟨(), hv⟩) (by simp)
  | perform e s =>
    rw [hd.1.ok]
    rcases performEffect_cases c e s Bank.device (.without []) with
      ⟨he, -, hv⟩ | ⟨entry, p, he, -, -, ⟨q, fault, -, ha, -⟩ | ⟨-, -, hv⟩⟩
    · rw [hv]
      simp [he]
    · rw [Bank.answer_write, hf.has_eq] at ha
      cases ha
    · rw [hv]
      simp [he]
  | queryCapabilities => exact iff_of_true hd.2.2.2 (by simp)

end Controller

/-! ### The program -/

namespace Catalog

theorem mem_effects_iff {c : Catalog} {e : Effect} : e ∈ c.effects ↔ (c.get? e).isSome := by
  rw [effects, List.mem_filter, and_iff_right e.mem_all, contains]

theorem effects_pairwise (c : Catalog) : c.effects.Pairwise (·.id < ·.id) := by
  have ha : Effect.all.Pairwise (·.id < ·.id) := by decide
  exact ha.filter c.contains

end Catalog

namespace CommandLine

open Calibration Controller

/-- An effect as the listing shows it, with its id in two columns. -/
def row (e : Effect) : String :=
  (if e.id < 10 then " " else "") ++ toString e.id ++ "  " ++ e.name

def writeLine (w : Register × String) : String := w.1.name ++ " <- " ++ w.2

/-- The lines that show an action of a controller: its effects, or what a request is answered and
writes on a fresh bank. -/
def Action.shown (controller : Controller) : Action → List String
  | .effects => controller.catalog.effects.map row
  | .command asked =>
    let direct := (controller.handle asked).run Bank.device (.without [])
    direct.value.toJson.render :: (direct.accesses.filterMap Access.written?).map writeLine

theorem lineFeed_not_mem_writeLine {w : Register × String} (h : Text.IsSolid w.2.toList) :
    '\n' ∉ (writeLine w).toList := by
  have hr : '\n' ∉ w.1.name.toList := by cases w.1 <;> decide
  have hs : '\n' ∉ w.2.toList := h.not_mem (by decide)
  simp [writeLine, hr, hs]

theorem Action.lineFeed_not_mem_shown {controller : Controller} {action : Action} {line : String}
    (h : line ∈ action.shown controller) : '\n' ∉ line.toList := by
  cases action with
  | effects =>
    obtain ⟨e, -, rfl⟩ := List.mem_map.mp h
    cases e <;> decide
  | command asked =>
    rcases List.mem_cons.mp h with rfl | h
    · intro hn
      exact (Outcome.isWritable_toJson _).not_control hn (by decide)
    · obtain ⟨⟨r, value⟩, hw, rfl⟩ := List.mem_map.mp h
      obtain ⟨a, ha, hw⟩ := List.mem_filterMap.mp hw
      cases a with
      | write r' value' =>
        cases hw
        have ht := takes_of_attempts (attempts_handle _ asked _ _) ha
        exact lineFeed_not_mem_writeLine ht.isSolid
      | _ => cases hw

theorem listing_eq (catalog : Catalog) : listing catalog = Text.ofLines (catalog.effects.map row) :=
  Text.intercalate_lineFeed row catalog.effects

theorem journalText_eq (journal : List (Register × String)) :
    journalText journal = Text.ofLines (journal.map writeLine) :=
  Text.intercalate_lineFeed writeLine journal

def Action.succeeds (controller : Controller) : Action → Bool
  | .effects => true
  | .command asked => ((controller.handle asked).run Bank.device (.without [])).value.code.isOk

theorem Action.succeeds_iff {controller : Controller} {action : Action} :
    action.succeeds controller = true ↔ ¬(action = .command (.setAmplitude 0) ∨
      ∃ e s, action = .command (.perform e s) ∧ controller.catalog.get? e = none) := by
  cases action with
  | effects => exact iff_of_true rfl (by simp)
  | command asked =>
    have h := controller.code_handle_fresh asked
    simpa only [succeeds, Status.isOk, decide_eq_true_eq, command.injEq] using h

/-- The startup leaves nothing to see in a dry run. -/
theorem dryRun_eq (sheet : Sheet) (catalog : Catalog) (action : Action) :
    let controller : Controller := ⟨catalog, sheet.values.levels.getD .standard⟩
    dryRun sheet catalog action =
      (Text.ofLines (action.shown controller), action.succeeds controller) := by
  intro controller
  let b := ((start sheet.values sheet.remarks catalog).run Bank.device (.without [])).state
  have hv : ((start sheet.values sheet.remarks catalog).run Bank.device (.without [])).value =
      controller := value_start_fresh sheet.values sheet.remarks catalog
  have hf : b.Flagged [] false := flagged_start sheet.values sheet.remarks catalog
  -- Clearing the journal changes no register.
  have hc : b.clearJournal.Flagged [] false := ⟨hf.sound, hf.has_eq, hf.flag_eq⟩
  have hd : dryRun sheet catalog action =
      let done := (action.program controller).run Bank.device b.clearJournal
      (done.value.1 ++ journalText done.state.journal, done.value.2) := by
    rw [dryRun, hv]
  rw [hd]
  cases action with
  | effects =>
    have hj : journalText b.clearJournal.journal = "" := rfl
    simp only [Action.program, Program.run_pure, hj, String.append_empty, listing_eq]
    rfl
  | command asked =>
    obtain ⟨ha, hj⟩ := controller.run_handle_fresh hc asked
    rw [Bank.clearJournal, List.nil_append, ← Bank.clearJournal] at hj
    simp only [Action.program, Program.run_bind, Program.run_pure, ha, hj, journalText_eq]
    rfl

/-! ### Loading -/

/-- The settings that a request asks for load and are valid, and so does the catalog that they
name. -/
structure Loads (lookup : String → Option String) (tree : FileTree) (path? : Option String)
    (config : Config) (catalog : Catalog) : Prop where
  settings : ∃ base, config = base.applyEnvironment lookup ∧
    match path? with
    | none => base = .standard
    | some path => Config.load (tree.readText path) = .ok base
  valid : config.validate = .ok ()
  entries : match config.catalogPath with
    | none => catalog = .standard
    | some path => ∃ text, tree.readText path = .ok text ∧ Catalog.ofDescriptor text = .ok catalog

section

variable {lookup : String → Option String} {tree : FileTree} {config : Config} {catalog : Catalog}

theorem readText_treeHost (path : String) (tree : FileTree) :
    (treeHost.readText path).run tree = pure (tree.readText path, tree) := rfl

theorem loadConfig_of_loads {path? : Option String}
    (h : Loads lookup tree path? config catalog) :
    (loadConfig treeHost lookup path?).run tree = pure (.ok config, tree) := by
  obtain ⟨⟨base, rfl, hb⟩, hv, -⟩ := h
  cases path? with
  | none =>
    subst hb
    simp only [loadConfig, StateT.run_pure, pure_bind, hv]
  | some path =>
    simp only [loadConfig, StateT.run_bind, StateT.run_pure, pure_bind, readText_treeHost, hb, hv]

theorem loadCatalog_of_loads {path? : Option String}
    (h : Loads lookup tree path? config catalog) :
    (loadCatalog treeHost config.catalogPath).run tree = pure (.ok catalog, tree) := by
  have hc := h.entries
  cases hp : config.catalogPath with
  | none =>
    simp only [hp] at hc
    subst hc
    rfl
  | some path =>
    simp only [hp] at hc
    obtain ⟨text, ht, hc⟩ := hc
    simp only [loadCatalog, StateT.run_bind, StateT.run_pure, pure_bind, readText_treeHost, ht, hc]

/-- A dry run leaves all files as they are, and never fails before its action. -/
theorem run_of_loads {args : List String} {request : Request}
    (hr : Request.ofArguments args lookup = .ok request) (hd : request.options.dryRun = true)
    (hl : Loads lookup tree request.options.config config catalog) :
    let sheet := Sheet.loadOrEmpty (tree.readText config.calibrationPath)
    (run treeHost lookup args).run tree =
      pure (exitOf (.ok (dryRun sheet catalog request.action)), tree) := by
  have hc := loadConfig_of_loads hl
  have hk := loadCatalog_of_loads hl
  simp only [run, hr, Request.carryOut, StateT.run_bind, StateT.run_pure, pure_bind, hc, hk,
    readText_treeHost, hd, if_true]

end

theorem exitOf_ok (output : String) (succeeded : Bool) :
    let exit := exitOf (.ok (output, succeeded))
    exit.output = output ∧ (exit.code = 1 ↔ ¬succeeded = true) ∧
      (exit.code = 0 ↔ succeeded = true) := by
  cases succeeded <;> simp [exitOf]

/-- A dry run shows the action and nothing else, whatever the file of the calibration holds, or if
it cannot be read. No file is modified. Effects are listed by ascending ids, and any other action
prints its outcome on one line and then one line for each write that it makes on a device with all
registers, also if it fails. It fails exactly for the amplitude zero and for effects that the
catalog lacks, which the exit code tells. -/
theorem dry_run_shows_action {args : List String} {lookup : String → Option String}
    {tree : FileTree} {request : Request} {config : Config} {catalog : Catalog}
    (hr : Request.ofArguments args lookup = .ok request) (hd : "--dry-run" ∈ args)
    (hl : Loads lookup tree request.options.config config catalog) :
    let sheet := Sheet.loadOrEmpty (tree.readText config.calibrationPath)
    let controller : Controller := ⟨catalog, sheet.values.levels.getD .standard⟩
    let fails := request.action = .command (.setAmplitude 0) ∨
      ∃ e s, request.action = .command (.perform e s) ∧ catalog.get? e = none
    let (exit, tree') := (run treeHost lookup args).run tree
    tree' = tree ∧ exit.output = Text.ofLines (request.action.shown controller) ∧
      (∀ line ∈ request.action.shown controller, '\n' ∉ line.toList) ∧
      catalog.effects.Pairwise (·.id < ·.id) ∧
      (∀ e, e ∈ catalog.effects ↔ (catalog.get? e).isSome) ∧
      (exit.code = 1 ↔ fails) ∧ (exit.code = 0 ↔ ¬fails) := by
  intro sheet controller fails
  have hs : request.action.succeeds controller = true ↔ ¬fails := Action.succeeds_iff
  obtain ⟨ho, h1, h0⟩ := exitOf_ok (Text.ofLines (request.action.shown controller))
    (request.action.succeeds controller)
  rw [run_of_loads hr (dryRun_of_mem hr hd) hl, dryRun_eq]
  exact ⟨rfl, ho, fun _ => Action.lineFeed_not_mem_shown, catalog.effects_pairwise,
    fun _ => Catalog.mem_effects_iff, h1.trans (hs.not.trans not_not), h0.trans hs⟩

/-- With a directory for a calibration file, switching off is shown with its two writes, and an
effect that the built-in catalog lacks with none. -/
theorem dry_run_shows_action_without_calibration :
    let lookup := fun name => if name = Config.calibrationVariable then some "/tmp" else none
    let off := (run treeHost lookup ["--dry-run", "off"]).run .empty
    let thud := (run treeHost lookup ["-v", "--dry-run", "perform", "-s", "2", "thud"]).run .empty
    off.1.output = "\x7b\"outcome\":\"status\",\"status\":\"OK\"\x7d\n" ++
        "global_scale <- 0\nactivate <- 0\n" ∧ off.1.code = 0 ∧ off.2 = .empty ∧
      thud.1.output = "\x7b\"outcome\":\"performed\",\"status\":\"UNSUPPORTED_OPERATION\"," ++
        "\"duration_ms\":0\x7d\n" ∧ thud.1.code = 1 ∧ thud.2 = .empty := by
  intro lookup off thud
  have hl (path? : Option String) (h : path? = none) : Loads lookup .empty path?
      (Config.standard.applyEnvironment lookup) .standard := by
    subst h
    exact ⟨⟨.standard, rfl, rfl⟩, by decide +kernel, rfl⟩
  have hr : Request.ofArguments ["--dry-run", "off"] lookup =
      .ok ⟨{ dryRun := true }, .command .off⟩ := by decide +kernel
  have hr' : Request.ofArguments ["-v", "--dry-run", "perform", "-s", "2", "thud"] lookup =
      .ok ⟨{ dryRun := true, verbosity := 1 }, .command (.perform .thud .strong)⟩ := by
    decide +kernel
  obtain ⟨ht, ho, -, -, -, -, h0⟩ := dry_run_shows_action hr (by decide) (hl _ rfl)
  obtain ⟨ht', ho', -, -, -, h1, -⟩ := dry_run_shows_action hr' (by decide) (hl _ rfl)
  refine ⟨ho.trans ?_, h0.mpr (by simp), ht, ho'.trans ?_, h1.mpr ?_, ht'⟩
  · decide +kernel
  · decide +kernel
  · exact .inr ⟨.thud, .strong, rfl, rfl⟩

end CommandLine

end Rumble
