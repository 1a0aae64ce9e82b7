/-!
# How a program ends

## Main definitions

* `Status` — by an exit code or by a signal, `Status.message` — in words.
-/

namespace GroovyFindings.Linter

/-- How a program ends. -/
inductive Status where
  | exited (code : Nat)
  | killed (signal : Nat)
deriving DecidableEq, Repr

/-- The program has done what it should. -/
def Status.success (s : Status) : Bool := s == .exited 0

/-- The name of a signal. -/
def signalName? : (signal : Nat) → Option String
  | 1 => some "SIGHUP"
  | 2 => some "SIGINT"
  | 3 => some "SIGQUIT"
  | 6 => some "SIGABRT"
  | 9 => some "SIGKILL"
  | 10 => some "SIGUSR1"
  | 12 => some "SIGUSR2"
  | 13 => some "SIGPIPE"
  | 14 => some "SIGALRM"
  | 15 => some "SIGTERM"
  | _ => none

/-- How a program ends, in words. -/
def Status.message : Status → String
  | .exited code => "exit status: " ++ toString code
  | .killed signal =>
      "signal: " ++ toString signal ++
        match signalName? signal with
        | some name => " (" ++ name ++ ")"
        | none => ""

end GroovyFindings.Linter
