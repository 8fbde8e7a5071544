import Rumble.Bank
import Rumble.Calibration.Sheet
import Rumble.Catalog.Descriptor
import Rumble.CommandLine.Request
import Rumble.Config
import Rumble.Controller
import Rumble.FileBank

namespace Rumble.CommandLine

structure Host (m : Type → Type) where
  readText : String → m (Except Fault String)
  /-- Performs a program on the register files at the given paths. -/
  perform {α : Type} : (Register → String) → Program α → m α

inductive Error where
  | config (path : String) (cause : Config.Error)
  | invalidConfig (cause : Config.Error)
  | catalogUnreadable (path : String) (fault : Fault)
  | catalog (path : String) (cause : Catalog.Error)
  | commandFailed

namespace Error

def summary : Error → String
  | config path _ => "loading config " ++ path
  | invalidConfig _ => "invalid config"
  | catalogUnreadable path _ => "reading catalog " ++ path
  | catalog path _ => "loading catalog " ++ path
  | commandFailed => "command failed"

def cause? : Error → Option String
  | config _ cause | invalidConfig cause => some cause.message
  | catalogUnreadable _ fault => some fault.detail
  | catalog _ cause => some cause.message
  | commandFailed => none

def message (e : Error) : String :=
  "Error: " ++ e.summary ++
    match e.cause? with
    | some cause => "\n\nCaused by:\n    " ++ cause ++ "\n"
    | none => "\n"

end Error

structure Exit where
  code : UInt32
  output : String := ""
  errors : String := ""

/-- One line per effect, with its id in two columns. -/
def listing (c : Catalog) : String :=
  "".intercalate (c.effects.map fun e =>
    (if e.id < 10 then " " else "") ++ toString e.id ++ "  " ++ e.name ++ "\n")

def Action.program (controller : Controller) : Action → Program (String × Bool)
  | .effects => pure (listing controller.catalog, true)
  | .command c => do
    let outcome ← controller.handle c
    return (outcome.toJson.render ++ "\n", outcome.code.isOk)

def journalText (journal : List (Register × String)) : String :=
  "".intercalate (journal.map fun (r, value) => r.name ++ " <- " ++ value ++ "\n")

/-- Performs an action on a fresh bank and prints the writes that it makes there. -/
def dryRun (sheet : Calibration.Sheet) (catalog : Catalog) (action : Action) : String × Bool :=
  let started := (Controller.start sheet.values sheet.remarks catalog).run Bank.device (.without [])
  let done := (action.program started.value).run Bank.device started.state.clearJournal
  (done.value.1 ++ journalText done.state.journal, done.value.2)

section

variable {m : Type → Type} [Monad m]

def loadConfig (host : Host m) (lookup : String → Option String) (path? : Option String) :
    m (Except Error Config) := do
  let loaded : Except Error Config ← match path? with
    | none => pure (.ok .standard)
    | some path => do
      match Config.load (← host.readText path) with
      | .ok config => pure (.ok config)
      | .error e => pure (.error (.config path e))
  match loaded with
  | .error e => return .error e
  | .ok config =>
    let config := config.applyEnvironment lookup
    match config.validate with
    | .ok _ => return .ok config
    | .error e => return .error (.invalidConfig e)

def loadCatalog (host : Host m) (path? : Option String) : m (Except Error Catalog) := do
  match path? with
  | none => return .ok .standard
  | some path =>
    match ← host.readText path with
    | .error fault => return .error (.catalogUnreadable path fault)
    | .ok text =>
      match Catalog.ofDescriptor text with
      | .ok catalog => return .ok catalog
      | .error e => return .error (.catalog path e)

def Request.carryOut (host : Host m) (lookup : String → Option String) (r : Request) :
    m (Except Error (String × Bool)) := do
  match ← loadConfig host lookup r.options.config with
  | .error e => return .error e
  | .ok config =>
    let sheet := Calibration.Sheet.loadOrEmpty (← host.readText config.calibrationPath)
    match ← loadCatalog host config.catalogPath with
    | .error e => return .error e
    | .ok catalog =>
      if r.options.dryRun then return .ok (dryRun sheet catalog r.action)
      else
        let result ← host.perform config.path do
          r.action.program (← Controller.start sheet.values sheet.remarks catalog)
        return .ok result

end

def versionText : String := "vibratorctl 0.2.0\n"

def usageText : String :=
  "Usage: vibratorctl [OPTIONS] <COMMAND>\n" ++
    "Commands: " ++ ", ".intercalate (Verb.all.map Verb.name) ++ ", help\n"

def Stop.exit : Stop → Exit
  | .usage => { code := 2, errors := usageText }
  | .help => { code := 0, output := usageText }
  | .version => { code := 0, output := versionText }

def exitOf : Except Error (String × Bool) → Exit
  | .ok (output, true) => { code := 0, output }
  | .ok (output, false) => { code := 1, output, errors := Error.commandFailed.message }
  | .error e => { code := 1, errors := e.message }

def run {m : Type → Type} [Monad m] (host : Host m) (lookup : String → Option String)
    (args : List String) : m Exit := do
  match Request.ofArguments args lookup with
  | .error stop => return stop.exit
  | .ok request => return exitOf (← request.carryOut host lookup)

def treeHost : Host (StateM FileTree) where
  readText path := fun tree => (tree.readText path, tree)
  perform paths program := fun tree =>
    let done := program.run FileBank.device (.openAll tree paths)
    (done.value, done.state.tree)

end Rumble.CommandLine
