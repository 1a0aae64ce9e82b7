import GroovyFindings.Proofs.Report.Run

/-!
# A report as an element tree

What a report says can be read off its element tree: every violation element
says one thing, which depends on its attributes, on the elements that it lies
in and on the text of the messages in it.  This file states that reading as a
recursion over the tree and shows that the reader of events, which remembers
four things and no tree, yields the same for every report in which elements
that mean something do not lie in others of their kind.

A path is the list of the elements around a place, the innermost first.

## Main definitions

* `walk` — what the elements of a tree say, in document order.
* `Unnested` — no element lies in another of its kind.
* `Legible` — the attributes that are asked for, and all text, can be read.
* `scopeAt` — what is remembered at a place, in terms of its path.

## Main results

* `run_eq_walk` — the reader at a place remembers `scopeAt` and yields `walk`.
* `readBytes_eq_walk` — an accepted document yields the walk of its tree.
-/

namespace GroovyFindings.Report

open GroovyFindings.Xml (Content Tag)

/-! ## What a tree says -/

/-- What a tag's element means, if it means something. -/
def elementOf? (tag : Tag) : Option Element := Element.ofName? tag.localName

/-- The attributes of an element that are asked for. -/
def Element.keys : Element → List String
  | .package => ["path"]
  | .file => ["name"]
  | .violation => ["ruleName", "lineNumber"]
  | .message => []

/-- The value of an attribute; none when it is missing or cannot be read. -/
def valueOf? (tag : Tag) (key : String) : Option String :=
  match tag.attribute? key with
  | .ok value => value
  | .error _ => none

/-- The characters of text; none when it cannot be read. -/
def charsOf (raw : List UInt8) : List Char :=
  match Xml.textOf raw with
  | .ok chars => chars
  | .error _ => []

/-- The innermost element of a kind on a path, and the path to it. -/
def nearest? (e : Element) : (path : List Tag) → Option (Tag × List Tag)
  | [] => none
  | tag :: outer => if elementOf? tag = some e then some (tag, outer) else nearest? e outer

/-- The package at the end of a path. -/
def packageAt (path : List Tag) : String :=
  match nearest? .package path with
  | some (tag, _) => (valueOf? tag "path").getD ""
  | none => ""

/-- The file at the end of a path: its name in the package that it lies in. -/
def fileAt? (path : List Tag) : Option String :=
  match nearest? .file path with
  | some (tag, outer) =>
      some (joinPackage (packageAt outer) ((valueOf? tag "name").getD ""))
  | none => none

/-- The rule that a violation names, unless the name is blank. -/
def ruleOf? (tag : Tag) : Option String :=
  (valueOf? tag "ruleName").filter fun key => !Text.isBlankText key

/-- The line of a violation. -/
def lineOf? (tag : Tag) : Option Nat := (valueOf? tag "lineNumber").bind parseLine

/-- The characters of the messages in content; all of it lies in one if
`inside` holds. -/
def messageChars (inside : Bool) : (content : Content) → List Char
  | .nil => []
  | .text raw rest =>
      (if inside then charsOf raw else []) ++ messageChars inside rest
  | .cdata raw rest =>
      (if inside then Utf8.decodeLossy raw else []) ++ messageChars inside rest
  | .empty _ rest => messageChars inside rest
  | .element tag inner rest =>
      messageChars (inside || elementOf? tag == some .message) inner ++
        messageChars inside rest

/-- What one violation element says. -/
def itemOf (path : List Tag) (tag : Tag) (inner : Content) : Item :=
  match ruleOf? tag, fileAt? path with
  | none, _ => .warning .noRule
  | some _, none => .warning .noFile
  | some rule, some file =>
      .violation
        ⟨rule, file, lineOf? tag, String.ofList (Text.trim (messageChars false inner))⟩

/-- What an element says by itself. -/
def ownItems (path : List Tag) (tag : Tag) (inner : Content) : List Item :=
  if elementOf? tag = some .violation then [itemOf path tag inner] else []

/-- What the elements of a tree say, in document order. -/
def walk (path : List Tag) : (content : Content) → List Item
  | .nil => []
  | .text _ rest => walk path rest
  | .cdata _ rest => walk path rest
  | .empty tag rest => ownItems path tag .nil ++ walk path rest
  | .element tag inner rest =>
      ownItems path tag inner ++ walk (tag :: path) inner ++ walk path rest

/-! ## Conditions on a tree -/

/-- The element of a tag would not lie in another of its kind. -/
def Fresh (path : List Tag) (tag : Tag) : Prop :=
  ∀ e, elementOf? tag = some e → nearest? e path = none

instance (path : List Tag) (tag : Tag) : Decidable (Fresh path tag) :=
  match h : elementOf? tag with
  | none => isTrue (by simp [Fresh, h])
  | some e => decidable_of_iff (nearest? e path = none) (by simp [Fresh, h])

/-- No element that means something lies in another of its kind. -/
def Unnested (path : List Tag) : (content : Content) → Prop
  | .nil => True
  | .text _ rest => Unnested path rest
  | .cdata _ rest => Unnested path rest
  | .empty tag rest => Fresh path tag ∧ Unnested path rest
  | .element tag inner rest =>
      Fresh path tag ∧ Unnested (tag :: path) inner ∧ Unnested path rest

instance decidableUnnested (path : List Tag) :
    (content : Content) → Decidable (Unnested path content)
  | .nil => isTrue trivial
  | .text _ rest => decidableUnnested path rest
  | .cdata _ rest => decidableUnnested path rest
  | .empty tag rest =>
      have := decidableUnnested path rest
      inferInstanceAs (Decidable (Fresh path tag ∧ Unnested path rest))
  | .element tag inner rest =>
      have := decidableUnnested (tag :: path) inner
      have := decidableUnnested path rest
      inferInstanceAs
        (Decidable (Fresh path tag ∧ Unnested (tag :: path) inner ∧ Unnested path rest))

/-- The attributes of a tag that are asked for can be read. -/
def LegibleTag (tag : Tag) : Prop :=
  ∀ e, elementOf? tag = some e → ∀ key ∈ e.keys, ∃ value, tag.attribute? key = .ok value

/-- The attributes that are asked for, and all text, can be read. -/
def Legible : (content : Content) → Prop
  | .nil => True
  | .text raw rest => (∃ chars, Xml.textOf raw = .ok chars) ∧ Legible rest
  | .cdata _ rest => Legible rest
  | .empty tag rest => LegibleTag tag ∧ Legible rest
  | .element tag inner rest => LegibleTag tag ∧ Legible inner ∧ Legible rest

theorem valueOf?_of_ok {tag : Tag} {key : String} {value : Option String}
    (h : tag.attribute? key = .ok value) : valueOf? tag key = value := by
  rw [valueOf?, h]

theorem charsOf_of_ok {raw : List UInt8} {chars : List Char}
    (h : Xml.textOf raw = .ok chars) : charsOf raw = chars := by
  rw [charsOf, h]

/-! ## What is remembered at a place -/

/-- A place lies in a message of the violation that it lies in. -/
def inMessageAt : (path : List Tag) → Bool
  | [] => false
  | tag :: outer =>
      match elementOf? tag with
      | some .violation => false
      | some .message => inMessageAt outer || (nearest? .violation outer).isSome
      | _ => inMessageAt outer

/-- What is remembered at the end of a path, when `chars` have been read of
the message. -/
def scopeAt (path : List Tag) (chars : List Char) : Scope where
  package := packageAt path
  file := fileAt? path
  pending := (nearest? .violation path).map fun (tag, _) =>
    ⟨ruleOf? tag, lineOf? tag, chars⟩
  inMessage := inMessageAt path

theorem nearest?_cons_self {e : Element} {tag : Tag} {outer : List Tag}
    (h : elementOf? tag = some e) : nearest? e (tag :: outer) = some (tag, outer) := by
  rw [nearest?, if_pos h]

theorem nearest?_cons_of_ne {e : Element} {tag : Tag} {outer : List Tag}
    (h : elementOf? tag ≠ some e) : nearest? e (tag :: outer) = nearest? e outer := by
  rw [nearest?, if_neg h]

/-- Outside violations nothing is in a message. -/
theorem inMessageAt_of_no_violation {path : List Tag}
    (h : nearest? .violation path = none) : inMessageAt path = false := by
  induction path with
  | nil => rfl
  | cons tag outer ih =>
      by_cases hviolation : elementOf? tag = some .violation
      · simp [nearest?_cons_self hviolation] at h
      · rw [nearest?_cons_of_ne hviolation] at h
        rw [inMessageAt]
        split
        · rfl
        · rw [ih h, h]
          rfl
        · exact ih h

/-- Outside messages nothing is in a message. -/
theorem inMessageAt_of_no_message {path : List Tag}
    (h : nearest? .message path = none) : inMessageAt path = false := by
  induction path with
  | nil => rfl
  | cons tag outer ih =>
      by_cases hmessage : elementOf? tag = some .message
      · simp [nearest?_cons_self hmessage] at h
      · rw [nearest?_cons_of_ne hmessage] at h
        rw [inMessageAt]
        split
        · rfl
        · next heq => exact absurd heq hmessage
        · exact ih h

/-- Outside violations no characters are remembered. -/
theorem scopeAt_of_no_violation {path : List Tag}
    (h : nearest? .violation path = none) (chars chars' : List Char) :
    scopeAt path chars = scopeAt path chars' := by
  simp [scopeAt, h]

section Cons

variable {path : List Tag} {tag : Tag} {chars : List Char}

private theorem scopeAt_other (h : elementOf? tag = none) :
    scopeAt (tag :: path) chars = scopeAt path chars := by
  simp [scopeAt, packageAt, fileAt?, nearest?, inMessageAt, h]

private theorem scopeAt_package (h : elementOf? tag = some .package) :
    scopeAt (tag :: path) chars =
      { scopeAt path chars with package := (valueOf? tag "path").getD "" } := by
  simp [scopeAt, packageAt, fileAt?, nearest?, inMessageAt, h]

private theorem scopeAt_file (h : elementOf? tag = some .file) :
    scopeAt (tag :: path) chars =
      { scopeAt path chars with
        file := some (joinPackage (packageAt path) ((valueOf? tag "name").getD "")) } := by
  simp [scopeAt, packageAt, fileAt?, nearest?, inMessageAt, h]

private theorem scopeAt_violation (h : elementOf? tag = some .violation)
    (fresh : nearest? .violation path = none) (outer : List Char) :
    scopeAt (tag :: path) chars =
      { scopeAt path outer with
        pending := some ⟨ruleOf? tag, lineOf? tag, chars⟩ } := by
  simp [scopeAt, packageAt, fileAt?, nearest?, inMessageAt, h,
    inMessageAt_of_no_violation fresh]

private theorem scopeAt_message (h : elementOf? tag = some .message) :
    scopeAt (tag :: path) chars =
      { scopeAt path chars with
        inMessage := inMessageAt path || (nearest? .violation path).isSome } := by
  simp [scopeAt, packageAt, fileAt?, nearest?, inMessageAt, h]

/-- What has been read of the message behind the start tag of an element. -/
def charsBehind (tag : Tag) (chars : List Char) : List Char :=
  if elementOf? tag = some .violation then [] else chars

/-- A tag can be entered if it is legible. -/
theorem exists_enter_iff {scope : Scope} :
    (∃ scope', scope.enter tag.localName tag = .ok scope') ↔ LegibleTag tag := by
  simp only [Scope.enter, LegibleTag, elementOf?]
  cases helem : Element.ofName? tag.localName with
  | none => simp
  | some e =>
      cases e with
      | package =>
          cases hpath : tag.attribute? "path" <;>
            simp [Scope.enterElement, Element.keys, hpath, bind, Except.bind, pure, Except.pure]
      | file =>
          cases hname : tag.attribute? "name" <;>
            simp [Scope.enterElement, Element.keys, hname, bind, Except.bind, pure, Except.pure]
      | violation =>
          cases hrule : tag.attribute? "ruleName" <;>
            cases hline : tag.attribute? "lineNumber" <;>
            simp [Scope.enterElement, Element.keys, hrule, hline, bind, Except.bind, pure,
              Except.pure]
      | message => simp [Scope.enterElement, Element.keys, pure, Except.pure]

/-- Entering an element leads to the scope of its inside. -/
theorem enter_scopeAt {scope : Scope} (fresh : Fresh path tag)
    (h : (scopeAt path chars).enter tag.localName tag = .ok scope) :
    scope = scopeAt (tag :: path) (charsBehind tag chars) := by
  have hlegible := exists_enter_iff.1 ⟨scope, h⟩
  simp only [Scope.enter] at h
  cases helem : elementOf? tag with
  | none =>
      rw [elementOf?] at helem
      simp only [helem, Except.ok.injEq] at h
      rw [scopeAt_other helem, charsBehind, if_neg (by simp [elementOf?, helem]), h]
  | some e =>
      have hkeys := hlegible e helem
      have hname : Element.ofName? tag.localName = some e := helem
      simp only [hname] at h
      cases e with
      | package =>
          obtain ⟨value, hvalue⟩ := hkeys "path" (by simp [Element.keys])
          rw [scopeAt_package helem, charsBehind, if_neg (by simp [helem]),
            valueOf?_of_ok hvalue]
          simpa [Scope.enterElement, hvalue, bind, Except.bind, pure, Except.pure,
            eq_comm] using h
      | file =>
          obtain ⟨value, hvalue⟩ := hkeys "name" (by simp [Element.keys])
          rw [scopeAt_file helem, charsBehind, if_neg (by simp [helem]),
            valueOf?_of_ok hvalue]
          simpa [Scope.enterElement, hvalue, bind, Except.bind, pure, Except.pure,
            scopeAt, eq_comm] using h
      | violation =>
          obtain ⟨rule, hrule⟩ := hkeys "ruleName" (by simp [Element.keys])
          obtain ⟨line, hline⟩ := hkeys "lineNumber" (by simp [Element.keys])
          rw [scopeAt_violation helem (fresh _ helem) chars, charsBehind, if_pos helem,
            ruleOf?, lineOf?, valueOf?_of_ok hrule, valueOf?_of_ok hline]
          simpa [Scope.enterElement, hrule, hline, bind, Except.bind, pure, Except.pure,
            eq_comm] using h
      | message =>
          rw [scopeAt_message helem, charsBehind, if_neg (by simp [helem])]
          simpa [Scope.enterElement, pure, Except.pure, scopeAt, eq_comm] using h

/-- Leaving an element leads back to the scope around it, where what has been
read of its message does not count any more if it is a violation, and yields
what it says by itself. -/
theorem leave_scopeAt (fresh : Fresh path tag) (inner : List Char) :
    (scopeAt (tag :: path) inner).leave tag.localName =
      (scopeAt path inner,
        if elementOf? tag = some .violation then
          some (Scope.finish (fileAt? path) ⟨ruleOf? tag, lineOf? tag, inner⟩)
        else none) := by
  cases helem : elementOf? tag with
  | none =>
      have hname : Element.ofName? tag.localName = none := helem
      simp [Scope.leave, hname, scopeAt_other helem]
  | some e =>
      have hname : Element.ofName? tag.localName = some e := helem
      have hfresh := fresh e helem
      cases e with
      | package =>
          rw [scopeAt_package helem]
          simp [Scope.leave, hname, scopeAt, packageAt, hfresh]
      | file =>
          rw [scopeAt_file helem]
          simp [Scope.leave, hname, scopeAt, fileAt?, hfresh]
      | violation =>
          rw [scopeAt_violation helem hfresh inner]
          simp [Scope.leave, hname, scopeAt, hfresh]
      | message =>
          rw [scopeAt_message helem]
          simp only [Scope.leave, hname, scopeAt]
          have hfalse : inMessageAt path = false := inMessageAt_of_no_message hfresh
          simp [hfalse]

end Cons

/-- Text is added to what has been read of the message that it lies in. -/
theorem text_scopeAt (path : List Tag) (chars more : List Char) :
    (scopeAt path chars).text more =
      scopeAt path (chars ++ if inMessageAt path then more else []) := by
  cases hviolation : nearest? .violation path with
  | none =>
      rw [scopeAt_of_no_violation hviolation _ chars]
      simp [Scope.text, scopeAt, hviolation]
  | some p =>
      cases hinside : inMessageAt path <;>
        simp [Scope.text, scopeAt, hviolation, hinside]

/-! ## The reader and the walk -/

/-- In a violation there are no violations. -/
theorem walk_in_violation {path : List Tag} {content : Content}
    (hunnested : Unnested path content)
    (hviolation : nearest? .violation path ≠ none) : walk path content = [] := by
  have hown : ∀ {path : List Tag} {tag : Tag} (inner : Content), Fresh path tag →
      nearest? .violation path ≠ none → ownItems path tag inner = [] := by
    intro path tag inner fresh hpath
    rw [ownItems, if_neg]
    exact fun helem => hpath (fresh _ helem)
  induction content generalizing path with
  | nil => rfl
  | text raw rest ih => exact ih hunnested hviolation
  | cdata raw rest ih => exact ih hunnested hviolation
  | empty tag rest ih =>
      obtain ⟨hfresh, hrest⟩ := hunnested
      rw [walk, hown _ hfresh hviolation, ih hrest hviolation]
      rfl
  | element tag inner rest ihInner ihRest =>
      obtain ⟨hfresh, hinner, hrest⟩ := hunnested
      have hdeeper : nearest? .violation (tag :: path) ≠ none := by
        rw [nearest?_cons_of_ne fun helem => hviolation (hfresh _ helem)]
        exact hviolation
      rw [walk, hown _ hfresh hviolation, ihInner hinner hdeeper, ihRest hrest hviolation]
      rfl

/-- What a document in which nothing fails says can be read. -/
theorem legible_of_run {content : Content} {s s' : State} {items : List Item}
    (h : run s content.events = (items, .ok s')) : Legible content := by
  induction content generalizing s s' items with
  | nil => trivial
  | text raw rest ih =>
      obtain ⟨mid, _, _, hstep, hrest, -⟩ := run_cons_eq_ok h
      obtain ⟨chars, hchars, -, -⟩ := step_text hstep
      exact ⟨⟨chars, hchars⟩, ih hrest⟩
  | cdata raw rest ih =>
      obtain ⟨mid, _, _, hstep, hrest, -⟩ := run_cons_eq_ok h
      exact ih hrest
  | empty tag rest ih =>
      obtain ⟨mid, _, _, hstep, hrest, -⟩ := run_cons_eq_ok h
      obtain ⟨scope, henter, -, -, -⟩ := step_empty hstep
      exact ⟨exists_enter_iff.1 ⟨scope, henter⟩, ih hrest⟩
  | element tag inner rest ihInner ihRest =>
      obtain ⟨scope, mid, _, _, henter, hinner, hrest, -⟩ := run_element_eq_ok h
      exact ⟨exists_enter_iff.1 ⟨scope, henter⟩, ihInner hinner, ihRest hrest⟩

/-- What is in a message inside an element, where a violation is being read. -/
private theorem inMessageAt_cons {path : List Tag} {tag : Tag} (fresh : Fresh path tag)
    (hviolation : nearest? .violation path ≠ none) :
    inMessageAt (tag :: path) =
      (inMessageAt path || elementOf? tag == some .message) := by
  have hsome : (nearest? .violation path).isSome = true :=
    Option.isSome_iff_ne_none.2 hviolation
  rw [inMessageAt]
  split
  · next helem => exact absurd (fresh _ helem) hviolation
  · next helem => simp [helem, hsome]
  · next hne hne' =>
      have hother : (elementOf? tag == some .message) = false := by
        simpa using hne'
      rw [hother, Bool.or_false]

section Element

variable {path : List Tag} {tag : Tag}

/-- What has been read of a message where an element closes. -/
private def charsInside (path : List Tag) (tag : Tag) (chars : List Char)
    (inner : Content) : List Char :=
  charsBehind tag chars ++ messageChars (inMessageAt (tag :: path)) inner

/-- What an element yields where it closes is what it says by itself. -/
private theorem finish_eq_ownItems (chars : List Char) (inner : Content) :
    (if elementOf? tag = some .violation then
        some (Scope.finish (fileAt? path)
          ⟨ruleOf? tag, lineOf? tag, charsInside path tag chars inner⟩)
      else none).toList = ownItems path tag inner := by
  unfold ownItems
  split
  · next helem =>
      have houtside : inMessageAt (tag :: path) = false := by simp [inMessageAt, helem]
      have hchars : charsInside path tag chars inner = messageChars false inner := by
        rw [charsInside, charsBehind, if_pos helem, houtside, List.nil_append]
      rw [hchars]
      rfl
  · rfl

/-- Either an element says nothing by itself, or what is in it says nothing. -/
private theorem walk_append_ownItems {inner : Content}
    (hunnested : Unnested (tag :: path) inner) :
    walk (tag :: path) inner ++ ownItems path tag inner =
      ownItems path tag inner ++ walk (tag :: path) inner := by
  by_cases helem : elementOf? tag = some .violation
  · have hinside : nearest? .violation (tag :: path) ≠ none := by
      rw [nearest?_cons_self helem]
      exact Option.some_ne_none _
    rw [walk_in_violation hunnested hinside, List.nil_append, List.append_nil]
  · rw [ownItems, if_neg helem, List.append_nil, List.nil_append]

/-- Behind an element its messages have been read, unless it is a violation,
behind which nothing is remembered of them. -/
private theorem scopeAt_charsInside (fresh : Fresh path tag) (chars more : List Char)
    (inner : Content) :
    scopeAt path (charsInside path tag chars inner ++ more) =
      scopeAt path (chars ++
        (messageChars (inMessageAt path || elementOf? tag == some .message) inner ++
          more)) := by
  cases hviolation : nearest? .violation path with
  | none => exact scopeAt_of_no_violation hviolation _ _
  | some p =>
      have hne : nearest? .violation path ≠ none := by
        rw [hviolation]
        exact Option.some_ne_none p
      have helem : elementOf? tag ≠ some .violation := by
        intro helem
        exact hne (fresh _ helem)
      rw [charsInside, charsBehind, if_neg helem, inMessageAt_cons fresh hne,
        List.append_assoc]

end Element

/-- **The reader walks the tree.**  From the scope of a place, the reader
yields what the content at that place says, and then stands in the scope of
the same place, the messages in the content being read. -/
theorem run_eq_walk {path : List Tag} {content : Content} {chars : List Char}
    {s s' : State} {items : List Item} (hunnested : Unnested path content)
    (hscope : s.scope = scopeAt path chars)
    (h : run s content.events = (items, .ok s')) :
    items = walk path content ∧
      s'.scope = scopeAt path (chars ++ messageChars (inMessageAt path) content) := by
  induction content generalizing path chars s s' items with
  | nil =>
      obtain ⟨rfl, rfl⟩ := by simpa [Content.events, run] using h
      exact ⟨rfl, by simpa [messageChars] using hscope⟩
  | text raw rest ih =>
      obtain ⟨mid, item, items', hstep, hrest, rfl⟩ := run_cons_eq_ok h
      obtain ⟨more, hmore, rfl, rfl⟩ := step_text hstep
      have hmid : s.scope.text more =
          scopeAt path (chars ++ if inMessageAt path then more else []) := by
        rw [hscope, text_scopeAt]
      obtain ⟨rfl, hfinal⟩ := ih hunnested hmid hrest
      refine ⟨rfl, ?_⟩
      rw [hfinal, messageChars, charsOf_of_ok hmore, List.append_assoc]
  | cdata raw rest ih =>
      obtain ⟨mid, item, items', hstep, hrest, rfl⟩ := run_cons_eq_ok h
      rw [step_cdata] at hstep
      obtain ⟨rfl, rfl⟩ := by simpa using hstep
      have hmid : s.scope.text (Utf8.decodeLossy raw) =
          scopeAt path
            (chars ++ if inMessageAt path then Utf8.decodeLossy raw else []) := by
        rw [hscope, text_scopeAt]
      obtain ⟨rfl, hfinal⟩ := ih hunnested hmid hrest
      refine ⟨rfl, ?_⟩
      rw [hfinal, messageChars, List.append_assoc]
  | empty tag rest ih =>
      obtain ⟨hfresh, hrestUnnested⟩ := hunnested
      obtain ⟨mid, item, items', hstep, hrest, rfl⟩ := run_cons_eq_ok h
      obtain ⟨scope, henter, -, rfl, rfl⟩ := step_empty hstep
      rw [hscope] at henter
      obtain rfl := enter_scopeAt hfresh henter
      have hinside : charsBehind tag chars = charsInside path tag chars .nil := by
        rw [charsInside, messageChars, List.append_nil]
      rw [leave_scopeAt hfresh, hinside] at hrest
      obtain ⟨rfl, hfinal⟩ := ih hrestUnnested rfl hrest
      constructor
      · rw [leave_scopeAt hfresh, hinside, finish_eq_ownItems, walk]
      · rw [hfinal, scopeAt_charsInside hfresh, messageChars]
        rfl
  | element tag inner rest ihInner ihRest =>
      obtain ⟨hfresh, hinnerUnnested, hrestUnnested⟩ := hunnested
      obtain ⟨scope, mid, innerItems, restItems, henter, hinner, hrest, rfl⟩ :=
        run_element_eq_ok h
      rw [hscope] at henter
      obtain rfl := enter_scopeAt hfresh henter
      obtain ⟨rfl, hmid⟩ := ihInner hinnerUnnested rfl hinner
      have hinside : mid.scope = scopeAt (tag :: path) (charsInside path tag chars inner) :=
        hmid
      have hleave := leave_scopeAt hfresh (charsInside path tag chars inner)
      rw [← hinside] at hleave
      rw [hleave] at hrest ⊢
      obtain ⟨rfl, hfinal⟩ := ihRest hrestUnnested rfl hrest
      constructor
      · rw [finish_eq_ownItems, walk, ← walk_append_ownItems hinnerUnnested,
          List.append_assoc]
      · rw [hfinal, scopeAt_charsInside hfresh, messageChars]

/-! ## Documents -/

theorem run_of_accepted {bytes : List UInt8} (accepted : (readBytes bytes).error = none) :
    ∃ s', run {} (Xml.events ⟨bytes, none⟩).1 = ((readBytes bytes).items, .ok s') ∧
      (Xml.events ⟨bytes, none⟩).2 = none ∧ s'.opened = [] := by
  obtain ⟨s', hrun, hfault, hend⟩ := resume_eq_of_error_none accepted
  exact ⟨s', hrun, hfault, (State.endError?_eq_none hend).1⟩

/-- An accepted document has an element tree. -/
theorem exists_content_of_accepted {bytes : List UInt8}
    (accepted : (readBytes bytes).error = none) :
    ∃ content : Content, content.IsOf bytes := by
  obtain ⟨s', hrun, hfault, hopened⟩ := run_of_accepted accepted
  obtain ⟨depth, hdepth⟩ :=
    Xml.exists_depthBehind?_eventsFrom none [] (Xml.withoutMark bytes)
  have hzero : depth = 0 := by
    rw [← length_opened_of_run hrun hdepth, hopened]
    rfl
  subst hzero
  obtain ⟨content, hcontent⟩ := Xml.exists_content_iff.2 hdepth
  exact ⟨content, Prod.ext hcontent hfault⟩

theorem readBytes_of_isOf {content : Content} {bytes : List UInt8}
    (tree : content.IsOf bytes) : readBytes bytes = readEvents content.events none := by
  show readEvents (Xml.events ⟨bytes, none⟩).1 (Xml.events ⟨bytes, none⟩).2 = _
  rw [tree]

/-- **An accepted document says what its tree says.**  The tree is the only
one with the document's events, whatever is asked for in it can be read, and
if no element lies in another of its kind then the violations and warnings
are those of the walk of the tree. -/
theorem readBytes_eq_walk {bytes : List UInt8}
    (accepted : (readBytes bytes).error = none) :
    ∃ content : Content, content.IsOf bytes ∧
      (∀ other : Content, other.IsOf bytes → other = content) ∧
      Legible content ∧
      (Unnested [] content →
        (readBytes bytes).violations =
            .ok ((walk [] content).filterMap Item.violation?) ∧
          (readBytes bytes).warnings = (walk [] content).filterMap Item.warning?) := by
  obtain ⟨content, htree⟩ := exists_content_of_accepted accepted
  obtain ⟨s', hrun, -, -⟩ := run_of_accepted accepted
  rw [show (Xml.events ⟨bytes, none⟩).1 = content.events from congrArg Prod.fst htree]
    at hrun
  refine ⟨content, htree, fun other h => h.unique htree, legible_of_run hrun, ?_⟩
  intro hunnested
  have hscope : ({} : State).scope = scopeAt [] [] := rfl
  have hitems := (run_eq_walk hunnested hscope hrun).1
  rw [Reading.violations_eq_ok_iff, Reading.warnings, hitems]
  exact ⟨⟨accepted, rfl⟩, rfl⟩

/-- A report with a violation and one that names no rule. -/
def sampleReport : List UInt8 :=
  Utf8.ofString "<R><File name='A'><Violation ruleName='E'><Message>x &amp; <b>y</b>" ++
    Utf8.ofString "</Message></Violation><Violation/></File></R>"

/-- Its element tree. -/
def sampleTree : Content :=
  let tag (content : String) : Tag := .ofContent (Utf8.ofString content)
  let text (chars : String) : Content := .text (Utf8.ofString chars) .nil
  let message : Content :=
    .text (Utf8.ofString "x &amp;") (.element (tag "b") (text "y") .nil)
  let violations : Content :=
    .element (tag "Violation ruleName='E'") (.element (tag "Message") message .nil)
      (.empty (tag "Violation") .nil)
  .element (tag "R") (.element (tag "File name='A'") violations .nil) .nil

theorem readBytes_eq_walk_sampleReport :
    (readBytes sampleReport).error = none ∧ sampleTree.IsOf sampleReport ∧
      Unnested [] sampleTree ∧
      (readBytes sampleReport).violations = .ok [⟨"E", "A", none, "x &y"⟩] ∧
      (readBytes sampleReport).warnings = [.noRule] := by
  have htree : sampleTree.IsOf sampleReport := by
    unfold Content.IsOf
    decide +kernel
  have accepted : (readBytes sampleReport).error = none := by
    rw [readBytes_of_isOf htree]
    decide +kernel
  have hunnested : Unnested [] sampleTree := by decide +kernel
  obtain ⟨content, -, hunique, -, hwalk⟩ := readBytes_eq_walk accepted
  obtain rfl := hunique _ htree
  obtain ⟨hviolations, hwarnings⟩ := hwalk hunnested
  refine ⟨accepted, htree, hunnested, hviolations.trans ?_, hwarnings.trans ?_⟩
  · decide +kernel
  · decide +kernel

end GroovyFindings.Report
