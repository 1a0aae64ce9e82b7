import GroovyFindings.Shell.Command
import GroovyFindings.Shell.Expansion
import GroovyFindings.Shell.Tool

/-!
# Running a script

Commands run one after the other, each on the state that the one before it
leaves. Only so many commands run inside each other, or as turns of the
same loop: a script that goes on beyond that is killed.

## Main definitions

* `run` — runs a command.
* `runScript` — runs the text of a script.
-/

namespace GroovyFindings.Shell

/-- How deep commands may run inside each other. -/
def maxDepth : Nat := 20000

/-- Ends a strict script after a command that has failed, unless it is a
condition. -/
def checked (tested : Bool) (r : Flow × State) : Flow × State :=
  if r.1 = .next ∧ r.2.strict ∧ tested = false ∧ r.2.status ≠ 0 then (.exit, r.2) else r

/-- What a subshell leaves of its state to the shell around it. -/
def afterSubshell (outer : State) (r : Flow × State) : Flow × State :=
  let s := { outer with
    disk := { r.2.disk with cwd := outer.disk.cwd }
    buffers := r.2.buffers
    status := r.2.status }
  match r.1 with
  | .killed signal => (.killed signal, s)
  | _ => (.next, s)

/-- Does a redirection to what its word stands for; gives the state with a
complaint if that fails. -/
def redirect (s : State) (line : Nat) (r : Redirect) : Except State State :=
  let target := (field s r.target).text
  let path : Path := ⟨target⟩
  let refuse (text : String) : Except State State :=
    .error { s.complainAt line text with status := 2 }
  let write (content : List UInt8 → List UInt8) : Except State State :=
    if target = "/dev/null".toList then .ok (s.withChannel r.descriptor .nowhere)
    else if target = "/dev/stderr".toList then .ok (s.withChannel r.descriptor s.err)
    else if target = "/dev/stdout".toList then .ok (s.withChannel r.descriptor s.out)
    else
      match s.opened content path with
      | .ok (place, s) => .ok (s.withChannel r.descriptor (.file place))
      | .error f => refuse ("cannot create " ++ path.text ++ ": " ++ State.writeFault f)
  match r.direction with
  | .write => write fun _ => []
  | .append => write id
  | .read =>
      if target = "/dev/null".toList then .ok { s with input := [] }
      else
        match s.disk.read path with
        | .ok content => .ok { s with input := content }
        | .error .isDirectory => .ok { s with input := [] }
        | .error f => refuse ("cannot open " ++ path.text ++ ": " ++ State.readFault f)
  | .same =>
      if target = ['-'] then .ok (s.withChannel r.descriptor .nowhere)
      else
        match (Text.natValue? target).bind s.channel? with
        | some c => .ok (s.withChannel r.descriptor c)
        | none => if target = ['0'] then .ok s
            else refuse (path.text ++ ": Bad file descriptor")

/-- Does redirections in their order. -/
def redirectAll (s : State) (line : Nat) (rs : List Redirect) : Except State State :=
  rs.foldlM (fun s r => redirect s line r) s

/-- Runs the command that the first field names. -/
def runFields (line : Nat) (name : List Char) (arguments : List (List Char)) (s : State) :
    Flow × State :=
  let shown := String.ofList name
  if '/' ∈ name then
    if s.disk.present ⟨name⟩ then
      Tool.done 126 (s.complainAt line (shown ++ ": Permission denied"))
    else Tool.done 127 (s.complainAt line (shown ++ ": not found"))
  else
    match tool? name with
    | some tool => tool line arguments s
    | none => Tool.done 127 (s.complainAt line (shown ++ ": not found"))

/-- Runs a simple command whose words have no scripts inside. Variables that
are set before a command are set for this command only. -/
def runSimple (c : Simple) (s : State) : Flow × State :=
  let words := (c.words.flatMap (fields s)).map Field.text
  match redirectAll s c.line c.redirects with
  | .error failed =>
      let special := words.head?.any isSpecial?
      (if special then .exit else .next, failed.withStreamsOf s)
  | .ok inner =>
      let inner := c.assignments.foldl (fun s a => s.assign a.1 (field s a.2).text) inner
      match words with
      | [] => (.next, { inner.withStreamsOf s with status := 0 })
      | name :: arguments =>
          let (flow, after) := runFields c.line name arguments inner
          let bindings := if c.assignments.isEmpty then after.bindings else s.bindings
          (flow, { after.withStreamsOf s with
            bindings := bindings
            input := if c.redirects.any (·.direction == .read) then s.input
              else after.input })

mutual

/-- Runs a command; `tested` says that a failure is looked at. -/
def run : (depth : Nat) → (tested : Bool) → Command → State → Flow × State
  | 0, _, _, s => (.killed 9, s)
  | depth + 1, tested, c, s =>
      match c with
      | .nothing => (.next, s)
      | .simple c =>
          let (words, s) := putOutputs depth c.words s
          let (values, s) := putOutputs depth (c.assignments.map (·.2)) s
          let (targets, s) := putOutputs depth (c.redirects.map (·.target)) s
          checked tested (runSimple { c with
            words := words
            assignments := (c.assignments.map (·.1)).zip values
            redirects := c.redirects.zipWith (fun r t => { r with target := t }) targets } s)
      | .redirected line redirects body =>
          match redirectAll s line redirects with
          | .error failed => (.next, failed.withStreamsOf s)
          | .ok inner =>
              let (flow, after) := run depth tested body inner
              (flow, after.withStreamsOf s)
      | .subshell body => checked tested (afterSubshell s (run depth tested body s))
      | .pipe left right =>
          let (index, opened) := s.newBuffer
          let (flow, s') := afterSubshell s
            (run depth tested left { opened with out := .buffer index })
          match flow with
          | .next => checked tested (afterSubshell s'
              (run depth tested right { s' with input := s'.buffer index }))
          | flow => (flow, s')
      | .sequence first second =>
          match run depth tested first s with
          | (.next, s) => run depth tested second s
          | r => r
      | .both first second =>
          match run depth true first s with
          | (.next, s) => if s.status = 0 then run depth tested second s else (.next, s)
          | r => r
      | .either first second =>
          match run depth true first s with
          | (.next, s) => if s.status = 0 then (.next, s) else run depth tested second s
          | r => r
      | .negated body =>
          match run depth true body s with
          | (.next, s) => Tool.done (if s.status = 0 then 1 else 0) s
          | r => r
      | .choice condition yes no =>
          match run depth true condition s with
          | (.next, s) =>
              if s.status = 0 then run depth tested yes s
              else
                match no with
                | some no => run depth tested no s
                | none => Tool.done 0 s
          | r => r
      | .loop succeeds condition body => turns depth tested succeeds condition body 0 s
      | .each name items body =>
          let (items, s) := match items with
            | some items =>
                let (items, s) := putOutputs depth items s
                ((items.flatMap (fields s)).map Field.text, s)
            | none => (s.arguments, s)
          eachOf depth tested name items body { s with status := 0 }
      | .select subject branches =>
          let (subject, s) := putOutput depth subject s
          selected depth tested (field s subject).text branches { s with status := 0 }

/-- The turns of a loop; `status` is that of the turn before. -/
def turns : (depth : Nat) → (tested succeeds : Bool) → (condition body : Command) →
    (status : Nat) → State → Flow × State
  | 0, _, _, _, _, _, s => (.killed 9, s)
  | depth + 1, tested, succeeds, condition, body, status, s =>
      match run depth true condition s with
      | (.next, s) =>
          if (s.status == 0) = succeeds then
            match run depth tested body s with
            | (.next, s) | (.again, s) =>
                turns depth tested succeeds condition body s.status s
            | (.leave, s) => (.next, s)
            | r => r
          else Tool.done status s
      | (.leave, s) => (.next, s)
      | (.again, s) => turns depth tested succeeds condition body s.status s
      | r => r

/-- The turns of a loop over items. -/
def eachOf : (depth : Nat) → (tested : Bool) → (name : List Char) →
    (items : List (List Char)) → (body : Command) → State → Flow × State
  | 0, _, _, _, _, s => (.killed 9, s)
  | _ + 1, _, _, [], _, s => (.next, s)
  | depth + 1, tested, name, item :: items, body, s =>
      match run depth tested body (s.assign name item) with
      | (.next, s) | (.again, s) => eachOf depth tested name items body s
      | (.leave, s) => (.next, s)
      | r => r

/-- The first branch with a pattern that fits. -/
def selected : (depth : Nat) → (tested : Bool) → (subject : List Char) →
    List (List Word × Command) → State → Flow × State
  | 0, _, _, _, s => (.killed 9, s)
  | _ + 1, _, _, [], s => (.next, s)
  | depth + 1, tested, subject, (patterns, body) :: branches, s =>
      let fits (w : Word) : Bool := Glob.accepts (field s w).pattern subject
      if patterns.any fits then run depth tested body s
      else selected depth tested subject branches s

/-- A word with what the scripts in it print. -/
def putOutput : (depth : Nat) → Word → State → Word × State
  | 0, w, s => (w, s)
  | _ + 1, [], s => ([], s)
  | depth + 1, part :: rest, s =>
      let (part, s) := match part with
        | .output quoted script =>
            let (index, inner) := s.newBuffer
            let (_, after) := afterSubshell s
              (runText depth script { inner with out := .buffer index })
            (Part.value quoted (Text.dropEndWhile (· == '\n')
              (Utf8.decodeLossy (after.buffer index))), after)
        | .parameter quoted name operator argument =>
            let (argument, s) := putOutput depth argument s
            (.parameter quoted name operator argument, s)
        | part => (part, s)
      let (rest, s) := putOutput depth rest s
      (part :: rest, s)

/-- Words with what the scripts in them print. -/
def putOutputs : (depth : Nat) → List Word → State → List Word × State
  | 0, ws, s => (ws, s)
  | _ + 1, [], s => ([], s)
  | depth + 1, w :: ws, s =>
      let (w, s) := putOutput depth w s
      let (ws, s) := putOutputs depth ws s
      (w :: ws, s)

/-- Runs the text of a script. -/
def runText : (depth : Nat) → (text : List Char) → State → Flow × State
  | 0, _, s => (.killed 9, s)
  | depth + 1, text, s =>
      match script? text with
      | some command => run depth false command s
      | none => (.exit, { s.complainAt 1 "Syntax error" with status := 2 })

end

/-- Runs the text of a script from the beginning. -/
def runScript (text : List Char) (s : State) : Flow × State := runText maxDepth text s

end GroovyFindings.Shell
