import GroovyFindings.Report.Scope
import GroovyFindings.Xml.Event

/-!
# Reading a report

The events of a document are folded over a state: the scope, the names of
the open elements and whether there has been a root. A violation element
yields its item where it closes. The first fault ends the reading, and
what had been yielded before it is kept for the log.

## Main definitions

* `State`, `step`, `run` — the fold.
* `Reading` — the items of a document and how its reading ended.
* `read` — the reading of an input.
-/

namespace GroovyFindings.Report

/-- Where the reader of a document stands. -/
structure State where
  scope : Scope := {}
  /-- The local names of the open elements, innermost first. -/
  opened : List String := []
  /-- Whether an element has been opened yet. -/
  rooted : Bool := false
deriving DecidableEq

/-- Behind an opening tag. Only one element may stand outside all others;
that is looked at before the attributes are. -/
def State.enter (s : State) (tag : Xml.Tag) : Except Error State :=
  let name := tag.localName
  if s.opened.isEmpty && s.rooted then .error (.extraRoot name)
  else
    match s.scope.enter name tag with
    | .ok scope => .ok { s with scope := scope, rooted := true }
    | .error e => .error (.xml e)

/-- One event: the state behind it, and what it yields. -/
def step (s : State) : Xml.Event → Except Error (State × Option Item)
  | .start tag =>
      match s.enter tag with
      | .ok s' => .ok ({ s' with opened := tag.localName :: s.opened }, none)
      | .error e => .error e
  | .empty tag =>
      match s.enter tag with
      | .ok s' =>
          let (scope, item) := s'.scope.leave tag.localName
          .ok ({ s' with scope := scope }, item)
      | .error e => .error e
  | .close =>
      match s.opened with
      | [] => .ok (s, none)
      | name :: outer =>
          let (scope, item) := s.scope.leave name
          .ok ({ s with scope := scope, opened := outer }, item)
  | .text raw =>
      match Xml.textOf raw with
      | .ok chars => .ok ({ s with scope := s.scope.text chars }, none)
      | .error e => .error (.xml e)
  | .cdata raw =>
      .ok ({ s with scope := s.scope.text (Utf8.decodeLossy raw) }, none)

/-- What the events yield, and the state behind them or the first fault. -/
def run (s : State) : List Xml.Event → List Item × Except Error State
  | [] => ([], .ok s)
  | e :: rest =>
      match step s e with
      | .error err => ([], .error err)
      | .ok (s', item) =>
          let (items, final) := run s' rest
          (item.toList ++ items, final)

/-- Why a document may not end in a state, if it may not. -/
def State.endError? (s : State) : Option Error :=
  match s.opened with
  | name :: _ => some (.truncated name)
  | [] => if s.rooted then none else some .empty

/-- What the reading of a document gave. -/
structure Reading where
  /-- What was yielded, in document order. -/
  items : List Item
  /-- The fault that ended the reading, if one did. -/
  error : Option Error
deriving DecidableEq

/-- The violations, if the document is a report. -/
def Reading.violations (r : Reading) : Except Error (List Violation) :=
  match r.error with
  | some e => .error e
  | none => .ok (r.items.filterMap Item.violation?)

/-- The warnings, also those before a fault. -/
def Reading.warnings (r : Reading) : List Warning := r.items.filterMap Item.warning?

/-- The reading of a sequence of events that the document, or a fault in
it, ends. -/
def readEvents (events : List Xml.Event) (fault : Option Xml.Error) : Reading :=
  match run {} events with
  | (items, .error e) => ⟨items, some e⟩
  | (items, .ok s) =>
      match fault with
      | some e => ⟨items, some (.xml e)⟩
      | none => ⟨items, s.endError?⟩

/-- The reading of an input. -/
def read (input : Xml.Input) : Reading :=
  let (events, fault) := Xml.events input
  readEvents events fault

/-- The reading of a document that is all there. -/
def readBytes (bytes : List UInt8) : Reading := read ⟨bytes, none⟩

end GroovyFindings.Report
