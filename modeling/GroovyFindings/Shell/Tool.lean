import GroovyFindings.Shell.Condition
import GroovyFindings.Shell.Format

/-!
# The commands that a script can use

A command takes its arguments and changes the state of the shell: it
prints, it changes the disk or the shell itself, and it leaves a status.
Few commands say anything about how the script goes on.

## Main definitions

* `Flow` — how a script goes on after a command.
* `Tool` — what a command does with its arguments.
* `tool?` — the commands by name.
-/

namespace GroovyFindings.Shell

/-- How a script goes on after a command. -/
inductive Flow where
  | next
  | exit
  /-- The loop around the command ends. -/
  | leave
  /-- The loop around the command begins its next turn. -/
  | again
  | killed (signal : Nat)
deriving DecidableEq, Repr

/-- What a command in a line does with its arguments. -/
abbrev Tool := (line : Nat) → (arguments : List (List Char)) → State → Flow × State

namespace Tool

/-- The command ends with a status. -/
def done (status : Nat) (s : State) : Flow × State := (.next, { s with status := status })

/-- A complaint of a command about itself. -/
def fails (status : Nat) (name text : String) : Tool :=
  fun line _ s => done status (s.complainAt line (name ++ ": " ++ text))

/-- A complaint that ends the script. -/
def ends (name text : String) : Tool :=
  fun line _ s => (.exit, { s.complainAt line (name ++ ": " ++ text) with status := 2 })

/-- The arguments, separated by blanks, with their backslashes followed;
without a line feed after them if the first one asks for that. -/
def echo : Tool := fun _ arguments s =>
  let (newline, texts) := match arguments with
    | ['-', 'n'] :: rest => (false, rest)
    | _ => (true, arguments)
  let (bytes, cut) := unescaped ([' '].intercalate texts)
  done 0 (s.print (bytes ++ if newline && !cut then [10] else []))

/-- The arguments in a format. -/
def printf : Tool := fun line arguments s =>
  match arguments with
  | [] => fails 2 "printf" "usage: printf format [arg ...]" line [] s
  | format :: rest =>
      let w := formatted format rest
      let s := w.amiss.foldl (fun s argument => s.complainAt line
        ("printf: " ++ String.ofList argument ++ ": expected numeric value")) s
      let s := s.print w.bytes
      match w.unknown with
      | some c => fails 2 "printf" ("%" ++ String.singleton c ++ ": invalid directive") line [] s
      | none => done (if w.amiss.isEmpty then 0 else 1) s

/-- The content of files, or else the input. -/
def cat : Tool := fun _ arguments s =>
  let add (s : State) (name : List Char) : State :=
    if name = ['-'] then { s.print s.input with input := [] }
    else
      match s.disk.read ⟨name⟩ with
      | .ok content => s.print content
      | .error f =>
          { s.complain ("cat: " ++ String.ofList name ++ ": " ++ f.reason) with status := 1 }
  let s := { s with status := 0 }
  (.next, if arguments.isEmpty then add s ['-'] else arguments.foldl add s)

/-- The numbers from one to another. -/
def numbers (first step last : Int) : List Int :=
  let count := if step > 0 then (last - first) / step + 1 else (first - last) / (-step) + 1
  (List.range count.toNat).map fun k => first + step * Int.ofNat k

/-- The numbers that the arguments denote, each in a line. -/
def seq : Tool := fun _ arguments s =>
  let refuse (text : String) : Flow × State :=
    done 1 ((s.complain ("seq: " ++ text)).complain "Try 'seq --help' for more information.")
  let listing (first step last : Int) : Flow × State :=
    if step = 0 then refuse "invalid Zero increment value: '0'"
    else
      let lines := (numbers first step last).map fun n => toString n ++ "\n"
      done 0 (s.print (Utf8.ofString (String.join lines)))
  match arguments.find? fun a => (number? a).isNone with
  | some a => refuse ("invalid floating point argument: '" ++ String.ofList a ++ "'")
  | none =>
      match arguments.filterMap number? with
      | [] => refuse "missing operand"
      | [last] => listing 1 1 last
      | [first, last] => listing first 1 last
      | [first, step, last] => listing first step last
      | _ => refuse ("extra operand '" ++ String.ofList ((arguments[3]?).getD []) ++ "'")

/-- Whether a condition holds. -/
def test (name : String) : Tool := fun line arguments s =>
  match condition s.disk arguments with
  | .ok holds => done (if holds then 0 else 1) s
  | .error text => fails 2 name text line [] s

/-- Whether a condition between brackets holds. -/
def bracket : Tool := fun line arguments s =>
  if arguments.getLast? = some [']'] then test "[" line arguments.dropLast s
  else fails 2 "[" "missing ]" line [] s

/-- A number that is not negative. -/
def count? (argument : List Char) : Option Nat :=
  (Text.natValue? argument).filter (· < 2147483648)

/-- Ends the script, with the last status if no other one is given. -/
def exit : Tool := fun line arguments s =>
  match arguments with
  | [] => (.exit, s)
  | a :: _ =>
      match count? a with
      | some n => (.exit, { s with status := n % 256 })
      | none => ends "exit" ("Illegal number: " ++ String.ofList a) line [] s

/-- Drops arguments of the script. -/
def shift : Tool := fun line arguments s =>
  match arguments.head?.elim (some 1) count? with
  | none => ends "shift" ("Illegal number: " ++ String.ofList (arguments.head?.getD [])) line [] s
  | some n =>
      if n ≤ s.arguments.length then done 0 { s with arguments := s.arguments.drop n }
      else ends "shift" "can't shift that many" line [] s

/-- Sets options and the arguments of the script. -/
def set : Tool := fun _ arguments s =>
  let isOption (a : List Char) : Bool := match a with
    | ['-', '-'] => false
    | '-' :: _ :: _ | '+' :: _ :: _ => true
    | _ => false
  let s := (arguments.takeWhile isOption).foldl (fun s a =>
    if 'e' ∈ a then { s with strict := a.head? == some '-' } else s) s
  done 0 (match arguments.dropWhile isOption with
    | [] => s
    | ['-', '-'] :: rest => { s with arguments := rest }
    | rest => { s with arguments := rest })

/-- Sets variables. -/
def assign : Tool := fun _ arguments s =>
  done 0 (arguments.foldl (fun s a =>
    match a.dropWhile (· != '=') with
    | [] => s
    | _ :: value => s.assign (a.takeWhile (· != '=')) value) s)

/-- The signals that a script can be ended by, by name. -/
def signals : List (String × Nat) :=
  [("HUP", 1), ("INT", 2), ("QUIT", 3), ("ABRT", 6), ("KILL", 9), ("USR1", 10),
    ("USR2", 12), ("PIPE", 13), ("ALRM", 14), ("TERM", 15)]

/-- The signal of a name or a number. -/
def signal? (name : List Char) : Option Nat :=
  match Text.natValue? name with
  | some n => if n < 32 then some n else none
  | none => signals.lookup (String.ofList name)

/-- Sends a signal: only the shell itself can get it. -/
def send (signal : Nat) : Tool := fun line arguments s =>
  if arguments = [] then ends "kill" "No process is named" line [] s
  else if arguments.contains State.process then
    if signal = 0 then done 0 s else (.killed signal, s)
  else done 1 ((s.complainAt line "kill: No such process").complain "")

/-- Sends a signal, given by name or by number, or the one for ending. -/
def kill : Tool := fun line arguments s =>
  match arguments with
  | ['-', 's'] :: name :: rest =>
      match signal? name with
      | some n => send n line rest s
      | none => fails 2 "kill" "invalid signal number or name" line [] s
  | ('-' :: c :: name) :: rest =>
      match signal? (c :: name) with
      | some n => send n line rest s
      | none => fails 2 "kill" ("Illegal option -" ++ String.singleton c) line [] s
  | _ => send 15 line arguments s

/-- Changes the disk by every path among the arguments. -/
def each (name action : String) (change : Disk → Path → Disk × Except Disk.Fault Unit) :
    Tool := fun _ arguments s =>
  let step (s : State) (argument : List Char) : State :=
    match change s.disk ⟨argument⟩ with
    | (d, .ok ()) => { s with disk := d }
    | (d, .error f) =>
        { s with disk := d, status := 1 }.complain
          (name ++ ": cannot " ++ action ++ " '" ++ String.ofList argument ++ "': " ++ f.reason)
  let paths := arguments.filter fun a => a.head? ≠ some '-'
  (.next, paths.foldl step { s with status := 0 })

/-- The disk after a change that may fail. -/
def changed (d : Disk) : Except Disk.Fault Disk → Disk × Except Disk.Fault Unit
  | .ok d => (d, .ok ())
  | .error f => (d, .error f)

/-- Makes directories, and those above them if that is asked for. -/
def mkdir : Tool := fun line arguments s =>
  each "mkdir" "create directory"
    (if arguments.contains ['-', 'p'] then Disk.mkdirs
      else fun d p => changed d (d.mkdir p)) line arguments s

/-- Makes files that are not there. -/
def touch : Tool :=
  each "touch" "touch" fun d p => if d.present p then (d, .ok ()) else changed d (d.write p [])

/-- Removes files. -/
def rm : Tool := fun line arguments s =>
  each "rm" "remove" (fun d p =>
    match d.remove p with
    | .error .missing =>
        (d, if arguments.contains ['-', 'f'] then .ok () else .error .missing)
    | result => changed d result) line arguments s

/-- Copies a file. -/
def cp : Tool := fun _ arguments s =>
  let refuse (text : String) (f : Disk.Fault) : Flow × State :=
    done 1 (s.complain ("cp: cannot " ++ text ++ ": " ++ f.reason))
  match arguments with
  | [source, target] =>
      let path : Path := ⟨target⟩
      let path := if s.disk.isDir path then
          path.join ⟨((Path.mk source).fileName?).getD []⟩
        else path
      match s.disk.read ⟨source⟩ with
      | .error f => refuse ("stat '" ++ String.ofList source ++ "'") f
      | .ok content =>
          match s.disk.write path content with
          | .ok d => done 0 { s with disk := d }
          | .error f => refuse ("create regular file '" ++ path.text ++ "'") f
  | _ => done 1 (s.complain "cp: missing file operand")

/-- Goes to another directory. -/
def cd : Tool := fun line arguments s =>
  let target := arguments.head?.getD []
  match s.disk.find true ⟨target⟩ with
  | .ok (place, .dir) => done 0 { s with disk := { s.disk with cwd := place } }
  | _ => fails 2 "cd" ("can't cd to " ++ String.ofList target) line [] s

/-- Prints the current directory. -/
def pwd : Tool := fun _ _ s =>
  done 0 (s.print (Utf8.encode ((Disk.pathOf s.disk.cwd).chars ++ ['\n'])))

end Tool

open Tool in
/-- The commands by name. -/
def tools : List (String × Tool) :=
  [(":", fun _ _ => done 0), ("true", fun _ _ => done 0), ("false", fun _ _ => done 1),
    ("sleep", fun _ _ => done 0), ("break", fun _ _ s => (.leave, { s with status := 0 })),
    ("continue", fun _ _ s => (.again, { s with status := 0 })), ("echo", echo),
    ("printf", printf), ("cat", cat), ("seq", seq), ("test", test "test"), ("[", bracket),
    ("exit", exit), ("shift", shift), ("set", set), ("export", assign), ("kill", kill),
    ("mkdir", mkdir), ("touch", touch), ("rm", rm), ("cp", cp), ("cd", cd), ("pwd", pwd)]

/-- A command by name. -/
def tool? (name : List Char) : Option Tool := tools.lookup (String.ofList name)

/-- Commands after which a script ends if a redirection fails. -/
def isSpecial? (name : List Char) : Bool :=
  String.ofList name ∈ [":", "break", "continue", "exit", "export", "set", "shift"]

end GroovyFindings.Shell
