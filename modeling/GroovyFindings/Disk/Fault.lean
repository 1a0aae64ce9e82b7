/-!
# What can go wrong with a file

The causes for which a file operation or the start of a program fails, and
the words for each. Causes that the operating system reports carry its
error number.

## Main definitions

* `Fault` — the causes.
* `Fault.reason`, `Fault.message` — what has gone wrong, without and with
  the error number.
-/

namespace GroovyFindings.Disk

/-- Why a file operation, or the start of a program, failed. -/
inductive Fault where
  /-- Nothing has that name. -/
  | missing
  /-- The argument list does not fit. -/
  | tooLong
  /-- The file may not be used that way. -/
  | denied
  /-- The name is taken. -/
  | taken
  /-- A component of the path that should be a directory is none. -/
  | notDirectory
  /-- The operation is not for directories. -/
  | isDirectory
  /-- A component, or the whole path, is too long. -/
  | nameTooLong
  /-- More symbolic links than the system follows. -/
  | tooManyLinks
  /-- The content is not text. -/
  | notText
  /-- The path contains a NUL. -/
  | nulInPath
  /-- The program or one of its arguments contains a NUL. -/
  | nulInCommand
deriving DecidableEq, Repr

/-- What has gone wrong, without a number. -/
def Fault.reason : Fault → String
  | .missing => "No such file or directory"
  | .tooLong => "Argument list too long"
  | .denied => "Permission denied"
  | .taken => "File exists"
  | .notDirectory => "Not a directory"
  | .isDirectory => "Is a directory"
  | .nameTooLong => "File name too long"
  | .tooManyLinks => "Too many levels of symbolic links"
  | .notText => "stream did not contain valid UTF-8"
  | .nulInPath => "file name contained an unexpected NUL byte"
  | .nulInCommand => "nul byte found in provided data"

/-- The number by which the operating system knows a cause. -/
def Fault.number? : Fault → Option Nat
  | .missing => some 2
  | .tooLong => some 7
  | .denied => some 13
  | .taken => some 17
  | .notDirectory => some 20
  | .isDirectory => some 21
  | .nameTooLong => some 36
  | .tooManyLinks => some 40
  | .notText | .nulInPath | .nulInCommand => none

/-- The words for a cause. -/
def Fault.message (f : Fault) : String :=
  match f.number? with
  | some n => f.reason ++ " (os error " ++ toString n ++ ")"
  | none => f.reason

end GroovyFindings.Disk
