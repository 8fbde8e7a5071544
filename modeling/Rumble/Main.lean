import Rumble.CommandLine.Run

namespace Rumble

def faultOf : IO.Error → Fault
  | .noFileOrDirectory .. => .notFound
  | .permissionDenied .. => .permissionDenied
  | .invalidArgument _ code _ => if code = 36 then .nameTooLong else .invalidInput
  | .timeExpired .. => .timedOut
  | .interrupted .. => .interrupted
  | .resourceBusy .. => .resourceBusy
  | .resourceExhausted .. => .storageFull
  | .inappropriateType _ code _ => if code = 21 then .isADirectory else .notADirectory
  | _ => .other

/-- Runs an action and turns what it throws into a fault. -/
def attempt {α : Type} (action : IO α) : IO (Except Fault α) := do
  try return .ok (← action)
  catch e => return .error (faultOf e)

def textOf : Except Fault ByteArray → Except Fault String
  | .error fault => .error fault
  | .ok bytes =>
    match String.fromUTF8? bytes with
    | some text => .ok text
    | none => .error .invalidData

def readSystemText (path : String) : IO (Except Fault String) :=
  textOf <$> attempt (IO.FS.readBinFile path)

def writeLog (verbosity : Nat) (record : Log.Record) : IO Unit := do
  let wanted := match record.severity with
    | .error | .warn => true
    | .info | .debug => verbosity ≥ 1
    | .trace => verbosity ≥ 2
  if wanted then IO.eprintln (record.severity.name ++ " " ++ record.text)

/-- Opens a register for reading and writing, or else for writing alone. -/
def openRegister (path : String) : IO (Except Fault IO.FS.Handle) := do
  match ← attempt (IO.FS.Handle.mk path .readWrite) with
  | .ok handle => return .ok handle
  | .error .permissionDenied => attempt (IO.FS.Handle.mk path .append)
  | .error fault => return .error fault

/-- Opens all registers; those that cannot be opened are logged and left out. -/
def openRegisters (verbosity : Nat) (path : Register → String) :
    IO (List (Register × IO.FS.Handle)) :=
  Register.all.filterMapM fun r => do
    match ← openRegister (path r) with
    | .ok handle => return some (r, handle)
    | .error fault =>
      writeLog verbosity
        ⟨.error, "Failed to open " ++ r.name ++ ":" ++ path r ++ " (" ++ fault.detail ++ ")"⟩
      return none

def writeHandle (verbosity : Nat) (r : Register) (value : String) (handle : IO.FS.Handle) :
    IO (Except ChannelError Unit) := do
  let written ← attempt do
    handle.rewind
    match ← attempt handle.truncate with
    | .ok _ => pure ()
    | .error _ => writeLog verbosity (FileBank.notTruncated r)
    handle.putStr (value ++ "\n")
    handle.flush
  return written.mapError (.io r)

def readHandle (r : Register) (handle : IO.FS.Handle) : IO (Except ChannelError String) := do
  let content ← attempt do
    handle.rewind
    handle.readBinToEnd
  return (textOf content).mapError (.io r)

def perform {α : Type} (verbosity : Nat) (handles : List (Register × IO.FS.Handle)) :
    Program α → IO α
  | .done a => pure a
  | .has r next => perform verbosity handles (next (handles.lookup r).isSome)
  | .write r value next => do
    match handles.lookup r with
    | none => perform verbosity handles (next (.error (.unavailable r)))
    | some handle => perform verbosity handles (next (← writeHandle verbosity r value handle))
  | .read r next => do
    match handles.lookup r with
    | none => perform verbosity handles (next (.error (.unavailable r)))
    | some handle => perform verbosity handles (next (← readHandle r handle))
  | .note record next => do
    writeLog verbosity record
    perform verbosity handles next

def systemHost (verbosity : Nat) : CommandLine.Host IO where
  readText := readSystemText
  perform path program := do perform verbosity (← openRegisters verbosity path) program

def readEnvironment : IO (String → Option String) := do
  let names := CommandLine.configVariable :: Config.calibrationVariable ::
    Config.catalogVariable :: Register.all.map Register.pathVariable
  let values ← names.mapM fun name => do return (name, ← IO.getEnv name)
  return fun name => (values.lookup name).bind fun value => value

def runOnSystem (args : List String) : IO UInt32 := do
  let lookup ← readEnvironment
  let verbosity := match CommandLine.Request.ofArguments args lookup with
    | .ok request => request.options.verbosity
    | .error _ => 0
  let exit ← CommandLine.run (systemHost verbosity) lookup args
  IO.print exit.output
  IO.eprint exit.errors
  return exit.code

end Rumble

def main (args : List String) : IO UInt32 := Rumble.runOnSystem args
