import GroovyFindings.Toml.Value

/-!
# What a document says about known things

A known thing is asked for by the name of its field. Fields that are not
asked for do not matter. A record may also be written as an array of its
fields in their order; then those at the end that have a default may be
left out.

## Main definitions

* `asString`, `asList`, `asRecord` — a value of the expected kind.
* `Record.required`, `Record.optional`, `Record.defaulted` — a field.
-/

namespace GroovyFindings.Toml

/-- A string. -/
def asString : Value → Except Error String
  | .string chars => .ok (String.ofList chars)
  | _ => .error (.mismatch "string")

/-- A list of things that `f` reads. -/
def asList {α : Type} (f : Value → Except Error α) : Value → Except Error (List α)
  | .array _ elements => elements.mapM f
  | _ => .error (.mismatch "array")

/-- Named strings. -/
def asStrings : Value → Except Error (List (String × String))
  | .table _ entries =>
      entries.mapM fun e => (asString e.2).map fun s => (String.ofList e.1, s)
  | _ => .error (.mismatch "table")

/-- A record. -/
inductive Record where
  | named (entries : Entries)
  | listed (fields : List Value)

/-- A record. -/
def asRecord : Value → Except Error Record
  | .table _ entries => .ok (.named entries)
  | .array _ fields => .ok (.listed fields)
  | _ => .error (.mismatch "table")

namespace Record

/-- The field of that name, or else of that number. -/
def field? (r : Record) (index : Nat) (name : String) : Option Value :=
  match r with
  | .named entries => entries.lookup name.toList
  | .listed fields => fields[index]?

/-- A field that must be there. -/
def required {α : Type} (r : Record) (index : Nat) (name : String)
    (f : Value → Except Error α) : Except Error α :=
  match r.field? index name with
  | some v => f v
  | none => .error (.mismatch name)

/-- A field with a default. -/
def defaulted {α : Type} (r : Record) (index : Nat) (name : String)
    (f : Value → Except Error α) : Except Error (Option α) :=
  match r.field? index name with
  | some v => (f v).map some
  | none => .ok none

/-- A field that may be missing where fields have names. -/
def optional {α : Type} (r : Record) (index : Nat) (name : String)
    (f : Value → Except Error α) : Except Error (Option α) :=
  match r with
  | .named _ => r.defaulted index name f
  | .listed _ => (r.required index name f).map some

end Record

end GroovyFindings.Toml
