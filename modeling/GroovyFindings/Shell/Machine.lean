import GroovyFindings.Linter.Launch
import GroovyFindings.Shell.Run

/-!
# A machine with a shell

There are three programs on this machine: a shell and the two that do
nothing but succeed or fail. Files of the disk are not programs.

## Main definitions

* `shell` — runs the shell with its arguments.
* `machine` — the machine.
-/

namespace GroovyFindings.Shell

/-- What the arguments of the shell ask for. -/
structure Invocation where
  /-- The first operand is a script, not the name of one. -/
  direct : Bool := false
  strict : Bool := false
  operands : List (List Char)

/-- The options that have a letter. -/
def optionLetters : List Char := "efIimnsxvVECabucl".toList

/-- Reads the letters of options; gives the first that there is not. -/
def readOptions (set : Bool) (i : Invocation) : List Char → Except Char Invocation
  | [] => .ok i
  | c :: rest =>
      if c ∉ optionLetters then .error c
      else if c = 'c' then readOptions set { i with direct := true } rest
      else if c = 'e' then readOptions set { i with strict := set } rest
      else readOptions set i rest

/-- Reads the arguments of the shell. -/
def readArguments (i : Invocation) : List (List Char) → Except Char Invocation
  | [] => .ok i
  | ['-'] :: rest | ['-', '-'] :: rest => .ok { i with operands := rest }
  | ('-' :: letters) :: rest =>
      match readOptions true i letters with
      | .ok i => readArguments i rest
      | .error c => .error c
  | ('+' :: letters) :: rest =>
      match readOptions false i letters with
      | .ok i => readArguments i rest
      | .error c => .error c
  | operands => .ok { i with operands := operands }

/-- What a run of a script leaves. -/
def ended (r : Flow × State) : Disk × Linter.Ended :=
  let status := match r.1 with
    | .killed signal => .killed signal
    | _ => .exited r.2.status
  (r.2.disk, ⟨status, r.2.buffer 0, r.2.buffer 1⟩)

/-- The shell complains about how it is used. -/
def misused (d : Disk) (text : String) : Disk × Linter.Ended :=
  (d, ⟨.exited 2, [], Utf8.ofString ("sh: 0: " ++ text ++ "\n")⟩)

/-- The variables that are set when a script begins. -/
def startVariables (d : Disk) : List (List Char × List Char) :=
  [("PWD".toList, (Disk.pathOf d.cwd).chars)]

/-- Runs a script under a name. -/
def start (d : Disk) (strict : Bool) (script name : List Char)
    (arguments : List (List Char)) : Disk × Linter.Ended :=
  let after := ended (runScript script
    { disk := d, name := name, arguments := arguments,
      bindings := startVariables d, strict := strict })
  ({ after.1 with cwd := d.cwd }, after.2)

/-- Runs the shell. -/
def shell (d : Disk) (arguments : List String) : Disk × Linter.Ended :=
  match readArguments { operands := [] } (arguments.map String.toList) with
  | .error c => misused d ("Illegal option -" ++ String.singleton c)
  | .ok i =>
      match i.direct, i.operands with
      | true, [] => misused d "-c requires an argument"
      | true, [script] => start d i.strict script "sh".toList []
      | true, script :: name :: rest => start d i.strict script name rest
      | false, [] => (d, ⟨.exited 0, [], []⟩)
      | false, name :: rest =>
          match d.read ⟨name⟩ with
          | .ok content => start d i.strict (Utf8.decodeLossy content) name rest
          | .error .isDirectory => (d, ⟨.exited 0, [], []⟩)
          | .error f =>
              misused d ("cannot open " ++ String.ofList name ++ ": " ++ State.readFault f)

/-- The greatest number of bytes in an argument. -/
def maxArgument : Nat := 131071

/-- Why no program of a name can be started. -/
def noProgram (d : Disk) (program : String) : Disk.Fault :=
  if '/' ∈ program.toList then
    match d.find true (.ofString program) with
    | .ok _ => .denied
    | .error f => f
  else if Disk.maxName < (Utf8.ofString program).length then .nameTooLong
  else if program = "." ∨ program = ".." then .denied
  else .missing

/-- A program goes by its name, and by a path where systems keep it. -/
def isCalled (name program : String) : Bool :=
  program ∈ [name, "/bin/" ++ name, "/usr/bin/" ++ name]

/-- The machine. -/
def machine : Linter.Machine where
  start d program arguments :=
    let texts := program :: arguments
    if texts.any fun s => '\x00' ∈ s.toList then .error .nulInCommand
    else if arguments.any fun s => maxArgument < (Utf8.ofString s).length then
      .error .tooLong
    else if isCalled "sh" program then .ok (shell d arguments)
    else if isCalled "true" program then .ok (d, ⟨.exited 0, [], []⟩)
    else if isCalled "false" program then .ok (d, ⟨.exited 1, [], []⟩)
    else .error (noProgram d program)

end GroovyFindings.Shell
