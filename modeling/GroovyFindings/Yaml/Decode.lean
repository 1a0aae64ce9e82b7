import GroovyFindings.Yaml.Node

/-!
# What a document says about known things

A known thing is asked for by the name of its field. Any scalar is a text,
however it is written; where a thing may be missing, an empty plain scalar
and the words for null say that it is. A record may also be written as a
sequence of all its fields in their order; those at the end that have a
default may be left out. A field that is asked for comes once.

## Main definitions

* `asString`, `asStrings`, `asRecord`, `asOptional` — a node of the
  expected kind.
* `Record.optional`, `Record.defaulted` — a field.
-/

namespace GroovyFindings.Yaml

/-- The error of a node that is something else than `what`. -/
def wrongKind {α : Type} (what : String) : Except Error α := .error ⟨.kind what, none⟩

/-- A text. -/
def asString (d : Document) (n : Node) : Except Error String :=
  match d.resolve n with
  | .scalar chars _ _ => .ok (String.ofList chars)
  | _ => wrongKind "string"

/-- A list of texts. Nothing is an empty list. -/
def asStrings (d : Document) (n : Node) : Except Error (List String) :=
  match d.resolve n with
  | .sequence items => items.mapM (asString d)
  | .scalar [] true _ => .ok []
  | _ => wrongKind "sequence"

/-- The words for null. -/
def nullWords : List (List Char) := ["null", "Null", "NULL", "~"].map String.toList

/-- The tag of null. -/
def nullTag : List Char := "tag:yaml.org,2002:null".toList

/-- A thing that may be missing. -/
def asOptional {α : Type} (d : Document) (f : Node → Except Error α) (n : Node) :
    Except Error (Option α) :=
  match d.resolve n with
  | .scalar chars true none =>
      if chars.isEmpty || nullWords.contains chars then .ok none else (f n).map some
  | .scalar chars true (some tag) =>
      if tag = nullTag then
        if nullWords.contains chars then .ok none else wrongKind "null"
      else (f n).map some
  | _ => (f n).map some

/-- A record. -/
inductive Record where
  | named (fields : List (String × Node))
  | listed (fields : List Node)

/-- A record with between `least` and `most` fields. Nothing is a record
without fields. -/
def asRecord (d : Document) (least most : Nat) (n : Node) : Except Error Record :=
  match d.resolve n with
  | .mapping pairs =>
      (pairs.mapM fun p => (asString d p.1).map (·, p.2)).map .named
  | .sequence items =>
      if least ≤ items.length ∧ items.length ≤ most then .ok (.listed items)
      else wrongKind "all fields"
  | .scalar [] true _ => .ok (.named [])
  | _ => wrongKind "mapping"

/-- The field of that name, or else of that number. -/
def Record.field? (r : Record) (index : Nat) (name : String) : Except Error (Option Node) :=
  match r with
  | .named fields =>
      match fields.filter (·.1 == name) with
      | [] => .ok none
      | [(_, n)] => .ok (some n)
      | _ => .error ⟨.duplicate name, none⟩
  | .listed fields => .ok fields[index]?

/-- A field that may be missing, or say that there is nothing. -/
def Record.optional {α : Type} (r : Record) (d : Document) (index : Nat) (name : String)
    (f : Node → Except Error α) : Except Error (Option α) := do
  match ← r.field? index name with
  | some n => asOptional d f n
  | none => return none

end GroovyFindings.Yaml
