import GroovyFindings.Yaml.Token

/-!
# The nodes of a YAML text

Tokens are put together to nodes: scalars, sequences, mappings, and
aliases, which stand for a node that has been given a name before. A text
holds at most one document.

## Main definitions

* `Node` — the nodes.
* `Document` — a node with the named nodes in it.
* `document?` — the document of a text.
-/

namespace GroovyFindings.Yaml

/-- A node. -/
inductive Node where
  /-- A scalar. It is plain if it is written without quotes. -/
  | scalar (chars : List Char) (isPlain : Bool) (tag : Option (List Char))
  | sequence (items : List Node)
  | mapping (pairs : List (Node × Node))
  /-- The named node of that number. -/
  | alias (number : Nat)
deriving Repr, Inhabited

/-- A node and the named nodes in it, by their numbers. -/
structure Document where
  root : Node
  named : List (Nat × Node)
deriving Repr

/-- The node for which an alias stands. -/
def Document.resolve (d : Document) (n : Node) : Node :=
  match n with
  | .alias number => (d.named.lookup number).getD n
  | _ => n

/-- How far tokens have been put together. -/
structure Build where
  tokens : List Placed
  /-- The prefixes of tags by their handles. -/
  handles : List (List Char × List Char) := []
  /-- The names given so far, the last one first. -/
  names : List (List Char × Nat) := []
  named : List (Nat × Node) := []

/-- Putting tokens together. -/
abbrev Building := StateT Build (Except Error)

namespace Building

/-- The error of `cause` at the next token. -/
def fail {α : Type} (cause : Cause) : Building α := do
  throw ⟨cause, (← get).tokens.head?.map (·.place)⟩

/-- The next token. -/
def peek : Building (Option Token) := return (← get).tokens.head?.map (·.token)

/-- Moves on to the next token. -/
def skip : Building Unit := modify fun b => { b with tokens := b.tokens.drop 1 }

/-- Moves on if the next token is `t`. -/
def accept (t : Token) : Building Bool := do
  if (← peek) == some t then
    skip
    return true
  else return false

/-- Moves on behind `t`, which must be next. -/
def expect (t : Token) (what : String) : Building Unit := do
  if !(← accept t) then fail (.expected what)

/-- An empty scalar. -/
def void : Node := .scalar [] true none

/-! ## Names and tags -/

/-- The prefix of a handle. -/
def handlePrefix (h : List Char) : Building (List Char) := do
  match (← get).handles.lookup h with
  | some start => return start
  | none =>
      if h = ['!'] then return ['!']
      else if h = ['!', '!'] then return "tag:yaml.org,2002:".toList
      else fail .tag

/-- The tag that a token says. -/
def tagOf (h suffix : List Char) : Building (List Char) := do
  if h.isEmpty then return suffix else return (← handlePrefix h) ++ suffix

/-- The name and the tag of a node, in either order. -/
structure Properties where
  name : Option (List Char) := none
  tag : Option (List Char) := none

/-- The properties before a node. -/
def properties : Building Properties := do
  match ← peek with
  | some (.anchor name) =>
      skip
      match ← peek with
      | some (.tag h suffix) =>
          skip
          return ⟨some name, some (← tagOf h suffix)⟩
      | _ => return ⟨some name, none⟩
  | some (.tag h suffix) =>
      skip
      match ← peek with
      | some (.anchor name) =>
          skip
          return ⟨some name, some (← tagOf h suffix)⟩
      | _ => return ⟨none, some (← tagOf h suffix)⟩
  | _ => return {}

/-- Gives the name to the node that `build` builds, from its beginning on. -/
def naming (name : Option (List Char)) (build : Building Node) : Building Node := do
  match name with
  | none => build
  | some name =>
      let number := (← get).names.length
      modify fun b => { b with names := (name, number) :: b.names }
      let node ← build
      modify fun b => { b with named := (number, node) :: b.named }
      return node

/-- A tag that says no more than that it is a tag. -/
def plainTag (tag : Option (List Char)) : Option (List Char) :=
  tag.filter fun t => t ≠ ['!'] ∧ t ≠ []

/-! ## Collections

Each takes what builds a node, which is told whether a block may be one
and whether a sequence in it may begin at the column of its key. -/

/-- What builds a node. -/
abbrev Builder := (inBlock indentless : Bool) → Building Node

/-- The node, or nothing if one of the given tokens is next. -/
def orVoid (stops : List Token) (node : Building Node) : Building Node := do
  match ← peek with
  | some t => if stops.contains t then return void else node
  | none => return void

/-- The entries of a block sequence, of which there are no more than
`count`. -/
def blockEntries (node : Builder) : (count : Nat) → Building (List Node)
  | 0 => fail .ended
  | count + 1 => do
      if ← accept .blockEnd then return []
      expect .blockEntry "'-' indicator"
      let item ← orVoid [.blockEntry, .blockEnd] (node true false)
      return item :: (← blockEntries node count)

/-- The entries of a sequence at the column of its key, of which there are
no more than `count`. -/
def indentlessEntries (node : Builder) : (count : Nat) → Building (List Node)
  | 0 => fail .ended
  | count + 1 => do
      if ← accept .blockEntry then
        let item ← orVoid [.blockEntry, .key, .value, .blockEnd] (node true false)
        return item :: (← indentlessEntries node count)
      else return []

/-- The value of a mapping, where nothing but `stops` leaves it out. -/
def mappingValue (stops : List Token) (node : Building Node) : Building Node := do
  if ← accept .value then orVoid stops node else return void

/-- The pairs of a block mapping, of which there are no more than
`count`. -/
def blockPairs (node : Builder) : (count : Nat) → Building (List (Node × Node))
  | 0 => fail .ended
  | count + 1 => do
      if ← accept .blockEnd then return []
      expect .key "key"
      let stops : List Token := [.key, .value, .blockEnd]
      let k ← orVoid stops (node true true)
      let v ← mappingValue stops (node true true)
      return (k, v) :: (← blockPairs node count)

/-- A pair in a flow sequence, from behind its question mark. A key that is
left out takes the token in its place along. -/
def flowPair (node : Builder) : Building Node := do
  let stops : List Token := [.flowEntry, .flowSequenceEnd]
  let k ← match ← peek with
    | some t =>
        if t == .value || stops.contains t then do
          skip
          pure void
        else node false false
    | none => fail .noNode
  let v ← mappingValue stops (node false false)
  return .mapping [(k, v)]

/-- The items of a flow sequence, of which there are no more than
`count`. -/
def flowItems (node : Builder) : (count : Nat) → (first : Bool) → Building (List Node)
  | 0, _ => fail .ended
  | count + 1, first => do
      if ← accept .flowSequenceEnd then return []
      if !first then
        expect .flowEntry "',' or ']'"
      if ← accept .flowSequenceEnd then return []
      let item ← if ← accept .key then flowPair node else node false false
      return item :: (← flowItems node count false)

/-- The pairs of a flow mapping, of which there are no more than
`count`. -/
def flowPairs (node : Builder) : (count : Nat) → (first : Bool) →
    Building (List (Node × Node))
  | 0, _ => fail .ended
  | count + 1, first => do
      if ← accept .flowMappingEnd then return []
      if !first then
        expect .flowEntry "',' or '\x7d'"
      if ← accept .flowMappingEnd then return []
      let stops : List Token := [.flowEntry, .flowMappingEnd]
      if ← accept .key then
        let k ← orVoid (.value :: stops) (node false false)
        let v ← mappingValue stops (node false false)
        return (k, v) :: (← flowPairs node count false)
      else
        let k ← node false false
        return (k, void) :: (← flowPairs node count false)

/-! ## Nodes -/

/-- The number of tokens that are left. -/
def left : Building Nat := return (← get).tokens.length

/-- The content of a node. -/
def content (node : Builder) (p : Properties) (inBlock indentless : Bool) :
    Building Node := do
  let count := (← left) + 1
  let t ← peek
  if indentless && t == some .blockEntry then
    return .sequence (← indentlessEntries node count)
  match t with
  | some (.scalar chars isPlain) =>
      skip
      return .scalar chars isPlain (plainTag p.tag)
  | some .flowSequence =>
      skip
      return .sequence (← flowItems node count true)
  | some .flowMapping =>
      skip
      return .mapping (← flowPairs node count true)
  | some .blockSequence =>
      if !inBlock then fail .noNode
      skip
      return .sequence (← blockEntries node count)
  | some .blockMapping =>
      if !inBlock then fail .noNode
      skip
      return .mapping (← blockPairs node count)
  | _ =>
      if p.name.isSome || p.tag.isSome then return .scalar [] true (plainTag p.tag)
      else fail .noNode

/-- An alias of that name. -/
def aliasOf (name : List Char) : Building Node := do
  match (← get).names.lookup name with
  | some number => return .alias number
  | none => fail .unknownAlias

/-- A node, in which no more than `depth` nodes contain each other. -/
def node : (depth : Nat) → Builder
  | 0, _, _ => fail .ended
  | depth + 1, inBlock, indentless => do
      match ← peek with
      | some (.alias name) =>
          skip
          aliasOf name
      | _ =>
          let p ← properties
          naming p.name (content (node depth) p inBlock indentless)

/-! ## Documents -/

/-- The directives before a document, of which there are no more than
`count`; `version` says whether there has been a version. -/
def directives : (count : Nat) → (version : Bool) → Building Unit
  | 0, _ => fail .ended
  | count + 1, version => do
      match ← peek with
      | some (.version major minor) =>
          if version || major != 1 || (minor != 1 && minor != 2) then fail .directive
          skip
          directives count true
      | some (.tagDirective h start) =>
          if ((← get).handles.lookup h).isSome then fail .directive
          modify fun b => { b with handles := (h, start) :: b.handles }
          skip
          directives count version
      | _ => return

/-- The beginning of a document: whether it has been said explicitly. -/
def documentStart : Building Bool := do
  match ← peek with
  | some (.version _ _) | some (.tagDirective _ _) | some .documentStart =>
      directives ((← left) + 1) false
      expect .documentStart "<document start>"
      return true
  | _ => return false

/-- The root of a document. -/
def root (explicit : Bool) : Building Node := do
  let depth := (← left) + 1
  match ← peek with
  | some .documentStart | some .documentEnd | some (.version _ _)
  | some (.tagDirective _ _) | none =>
      if explicit then return void else fail .noNode
  | _ => node depth true false

/-- The only document, if there is one. -/
def document : Building (Option Document) := do
  if (← peek).isNone then return none
  let explicit ← documentStart
  let node ← root explicit
  modify fun b => { b with tokens := b.tokens.dropWhile (·.token == .documentEnd) }
  if (← peek).isSome then fail .documents
  return some ⟨node, (← get).named⟩

end Building

/-- The only document of a text, if there is one. -/
def document? (text : List Char) : Except Error (Option Document) := do
  let tokens ← tokens text
  let (document, _) ← Building.document.run { tokens := tokens }
  return document

end GroovyFindings.Yaml
