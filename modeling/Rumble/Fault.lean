namespace Rumble

inductive Fault where
  | notFound
  | permissionDenied
  | invalidInput
  | invalidData
  | timedOut
  | unexpectedEof
  | interrupted
  | storageFull
  | resourceBusy
  | brokenPipe
  | writeZero
  | isADirectory
  | notADirectory
  | nameTooLong
  /-- The path has a NUL character, which no file name can have. -/
  | nulInPath
  | other
  deriving DecidableEq, Repr

namespace Fault

/-- The kind of fault, as error messages give it in parentheses. -/
def text : Fault → String
  | notFound => "entity not found"
  | permissionDenied => "permission denied"
  | invalidInput => "invalid input parameter"
  | invalidData => "invalid data"
  | timedOut => "timed out"
  | unexpectedEof => "unexpected end of file"
  | interrupted => "operation interrupted"
  | storageFull => "no storage space"
  | resourceBusy => "resource busy"
  | brokenPipe => "broken pipe"
  | writeZero => "write zero"
  | isADirectory => "is a directory"
  | notADirectory => "not a directory"
  | nameTooLong => "invalid filename"
  | nulInPath => "invalid input parameter"
  | other => "other error"

/-- The description of the fault itself, with the system's error number where it has one. -/
def detail : Fault → String
  | notFound => "No such file or directory (os error 2)"
  | permissionDenied => "Permission denied (os error 13)"
  | invalidInput => "Invalid argument (os error 22)"
  | invalidData => "stream did not contain valid UTF-8"
  | timedOut => "Connection timed out (os error 110)"
  | unexpectedEof => "failed to fill whole buffer"
  | interrupted => "Interrupted system call (os error 4)"
  | storageFull => "No space left on device (os error 28)"
  | resourceBusy => "Device or resource busy (os error 16)"
  | brokenPipe => "Broken pipe (os error 32)"
  | writeZero => "failed to write whole buffer"
  | isADirectory => "Is a directory (os error 21)"
  | notADirectory => "Not a directory (os error 20)"
  | nameTooLong => "File name too long (os error 36)"
  | nulInPath => "file name contained an unexpected NUL byte"
  | other => "other error"

end Fault

end Rumble
