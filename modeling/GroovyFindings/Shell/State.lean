import GroovyFindings.Disk.Edit

/-!
# The state of a shell

A shell has variables and arguments, reads an input, and prints to two
descriptors. What is printed goes to a file or into a buffer; the first two
buffers are what the shell itself has printed and complained.

## Main definitions

* `Channel`, `State` — the state of a shell.
* `State.value?` — the value of a parameter.
* `State.send`, `State.print`, `State.complain` — printing.
* `State.opened` — a redirection.
-/

namespace GroovyFindings.Shell

/-- Where to what is printed goes. -/
inductive Channel where
  | buffer (index : Nat)
  | file (place : Place)
  | nowhere
deriving DecidableEq

/-- The state of a shell. -/
structure State where
  disk : Disk
  /-- What the script is called. -/
  name : List Char
  arguments : List (List Char)
  /-- The value of a variable is the first one with its name. -/
  bindings : List (List Char × List Char)
  /-- What can be read. -/
  input : List UInt8 := []
  buffers : List (List UInt8) := [[], []]
  /-- Where what is printed goes. -/
  out : Channel := .buffer 0
  /-- Where complaints go. -/
  err : Channel := .buffer 1
  /-- How the last command has ended. -/
  status : Nat := 0
  /-- A command that fails ends the script. -/
  strict : Bool := false

namespace State

/-- The number by which the shell knows itself. -/
def process : List Char := "4242".toList

/-- The value of a parameter, if it has one. -/
def value? (s : State) (name : List Char) : Option (List Char) :=
  match name with
  | ['#'] => some (toString s.arguments.length).toList
  | ['?'] => some (toString s.status).toList
  | ['$'] => some process
  | ['-'] => some (if s.strict then ['e'] else [])
  | ['!'] => none
  | ['0'] => some s.name
  | ['@'] | ['*'] =>
      if s.arguments.isEmpty then none else some ([' '].intercalate s.arguments)
  | _ =>
      match (String.ofList name).toNat? with
      | some n => if n = 0 then some s.name else s.arguments[n - 1]?
      | none => s.bindings.lookup name

/-- The state with a variable set. -/
def assign (s : State) (name value : List Char) : State :=
  { s with bindings := (name, value) :: s.bindings }

/-- Sends bytes to a channel. -/
def send (s : State) (c : Channel) (bytes : List UInt8) : State :=
  match c with
  | .buffer i => { s with buffers := s.buffers.modify i (· ++ bytes) }
  | .file place =>
      match s.disk.node? place with
      | some (.file content) =>
          { s with disk := s.disk.put place (.file (content ++ bytes)) }
      | _ => s
  | .nowhere => s

/-- Prints bytes. -/
def print (s : State) (bytes : List UInt8) : State := s.send s.out bytes

/-- Prints a line of complaint. -/
def complain (s : State) (line : String) : State := s.send s.err (Utf8.ofString (line ++ "\n"))

/-- Prints a complaint of the shell about a line of the script. -/
def complainAt (s : State) (line : Nat) (text : String) : State :=
  s.complain (String.ofList s.name ++ ": " ++ toString line ++ ": " ++ text)

/-- The channel of a descriptor. -/
def channel? (s : State) (descriptor : Nat) : Option Channel :=
  if descriptor = 1 then some s.out
  else if descriptor = 2 then some s.err
  else none

/-- The state with another channel for a descriptor. -/
def withChannel (s : State) (descriptor : Nat) (c : Channel) : State :=
  if descriptor = 1 then { s with out := c }
  else if descriptor = 2 then { s with err := c }
  else s

/-- The state with the channels and the input of another one. -/
def withStreamsOf (s other : State) : State :=
  { s with out := other.out, err := other.err, input := other.input }

/-- A new buffer, by its index. -/
def newBuffer (s : State) : Nat × State :=
  (s.buffers.length, { s with buffers := s.buffers ++ [[]] })

/-- What a buffer holds. -/
def buffer (s : State) (index : Nat) : List UInt8 := (s.buffers[index]?).getD []

/-- Why a file cannot be read. -/
def readFault : Disk.Fault → String
  | .missing | .notDirectory => "No such file"
  | f => f.reason

/-- Why a file cannot be made. -/
def writeFault : Disk.Fault → String
  | .missing | .notDirectory => "Directory nonexistent"
  | f => f.reason

/-- The place of a file that is made if need be; `content` is what it
begins with, given what is there. -/
def opened (s : State) (content : List UInt8 → List UInt8) (path : Path) :
    Except Disk.Fault (Place × State) := do
  let disk ← s.disk.write path (content ((s.disk.read path).toOption.getD []))
  let (place, _) ← disk.find true path
  return (place, { s with disk := disk })

end State

end GroovyFindings.Shell
