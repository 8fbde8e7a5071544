namespace Rumble

inductive Failure where
  /-- An argument is outside its domain. -/
  | badValue
  /-- The catalog has no such effect, or the current mode forbids the request. -/
  | unsupportedOperation
  /-- A register refused a write. -/
  | unknownError
  deriving DecidableEq, Repr

def Failure.message : Failure → String
  | .badValue => "bad value"
  | .unsupportedOperation => "unsupported operation"
  | .unknownError => "hardware write failed"

inductive Status where
  | ok
  | failed (cause : Failure)
  deriving DecidableEq, Repr

namespace Status

def code : Status → String
  | ok => "OK"
  | failed .badValue => "BAD_VALUE"
  | failed .unsupportedOperation => "UNSUPPORTED_OPERATION"
  | failed .unknownError => "UNKNOWN_ERROR"

def ofResult {α : Type} : Except Failure α → Status
  | .ok _ => ok
  | .error cause => failed cause

def isOk (s : Status) : Bool := s = ok

end Status

end Rumble
