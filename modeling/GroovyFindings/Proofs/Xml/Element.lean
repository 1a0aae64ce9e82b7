import GroovyFindings.Proofs.Xml.Attribute
import GroovyFindings.Proofs.Xml.Content

/-!
# Elements as they are read

A reader of reports asks a tag for one attribute at a time.  Here all of a tag
is read: every attribute with its value, and the elements in it.  A document
that can be read so has elements in it and nothing else.

Keys are kept as bytes, which is how they are compared.

## Main definitions

* `Attributes.all` — every attribute of a byte sequence, from left to right.
* `Tag.attributes?` — those of a tag, with their values as text.
* `Element`, `Content.elements?` — what content says that has no text in it.
* `Content.Answers` — what its tags answer when they are asked.

## Main results

* `Tag.attribute?_of_attributes?` — asking for one attribute agrees with
  reading all of them.
* `Content.answers_of_elements?` — so it does throughout a document.
* `WrittenTag.attributes?_ofContent` — the attributes of a written tag are
  those that were written.
-/

namespace GroovyFindings.Xml

/-! ## All attributes -/

namespace Attributes

/-- The keys and raw values of the attributes in `bytes`, which stand at `pos`
behind those in `seen`. -/
def all (seen : List Attribute) (pos : Nat) (bytes : List UInt8) :
    Except AttributeError (List (List UInt8 × List UInt8)) :=
  match _h : next seen pos bytes with
  | .error e => .error e
  | .ok none => .ok []
  | .ok (some (a, pos', rest)) =>
      match all (seen ++ [a]) pos' rest with
      | .error e => .error e
      | .ok more => .ok ((a.key, a.value) :: more)
termination_by bytes.length
decreasing_by exact next_length_lt _h

variable {seen : List Attribute} {pos pos' : Nat} {bytes rest : List UInt8}

theorem all_of_end (h : next seen pos bytes = .ok none) : all seen pos bytes = .ok [] := by
  rw [all]
  split
  · next heq => rw [h] at heq; cases heq
  · rfl
  · next heq => rw [h] at heq; cases heq

theorem all_of_next {a : Attribute} {more : List (List UInt8 × List UInt8)}
    (h : next seen pos bytes = .ok (some (a, pos', rest)))
    (hmore : all (seen ++ [a]) pos' rest = .ok more) :
    all seen pos bytes = .ok ((a.key, a.value) :: more) := by
  rw [all]
  split
  · next heq => rw [h] at heq; cases heq
  · next heq => rw [h] at heq; cases heq
  · next heq =>
      rw [h] at heq
      obtain ⟨rfl, rfl, rfl⟩ := by simpa using heq
      rw [hmore]

/-- Reading all attributes is reading the first one and then the others. -/
theorem all_eq_ok {pairs : List (List UInt8 × List UInt8)}
    (h : all seen pos bytes = .ok pairs) :
    (pairs = [] ∧ next seen pos bytes = .ok none) ∨
      ∃ a pos' rest more, pairs = (a.key, a.value) :: more ∧
        next seen pos bytes = .ok (some (a, pos', rest)) ∧
        all (seen ++ [a]) pos' rest = .ok more := by
  rw [all] at h
  split at h
  · cases h
  · next hnext => exact .inl ⟨(Except.ok.inj h).symm, hnext⟩
  · next a pos' rest hnext =>
      split at h
      · cases h
      · next more hmore =>
          exact .inr ⟨a, pos', rest, more, (Except.ok.inj h).symm, hnext, hmore⟩

/-- Where all attributes can be read, one that is looked for is found among
them. -/
theorem lookup_of_all (wanted : List UInt8) {pairs : List (List UInt8 × List UInt8)}
    (h : all seen pos bytes = .ok pairs) :
    lookup wanted seen pos bytes = .ok (pairs.lookup wanted) := by
  induction pairs generalizing seen pos bytes with
  | nil =>
      rcases all_eq_ok h with ⟨-, hnext⟩ | ⟨_, _, _, _, hcons, -, -⟩
      · exact lookup_of_end hnext
      · cases hcons
  | cons p pairs ih =>
      rcases all_eq_ok h with ⟨hnil, -⟩ | ⟨a, pos', rest, more, hcons, hnext, hmore⟩
      · cases hnil
      · obtain ⟨rfl, rfl⟩ := List.cons.inj hcons
        rw [lookup_of_next hnext, List.lookup_cons]
        by_cases hkey : a.key = wanted
        · have hbeq : (wanted == a.key) = true := by simp [hkey]
          rw [if_pos hkey, hbeq]
        · have hbeq : (wanted == a.key) = false := by simp [Ne.symm hkey]
          rw [if_neg hkey, hbeq, ih hmore]

/-- Attributes with distinct keys that were written one after the other are
those that are read. -/
theorem all_flatMap {attributes : List WrittenAttribute} {trail : List UInt8}
    (distinct : (attributes.map (·.key)).Nodup)
    (fresh : ∀ a ∈ attributes, ∀ e ∈ seen, e.key ≠ a.key) (blank : Blank trail) (pos : Nat) :
    all seen pos (attributes.flatMap (·.bytes) ++ trail) =
      .ok (attributes.map fun a => (a.key, a.raw)) := by
  induction attributes generalizing seen pos with
  | nil =>
      apply all_of_end
      have hend : trail.dropWhile isSpace = [] := by
        rw [List.dropWhile_eq_nil_iff]
        exact blank
      simp only [List.flatMap_nil, List.nil_append, next, hend]
  | cons a attributes ih =>
      rw [List.map_cons, List.nodup_cons] at distinct
      have hnext := a.next_eq (fresh a List.mem_cons_self) pos
        (attributes.flatMap (·.bytes) ++ trail)
      rw [List.flatMap_cons, List.append_assoc]
      refine all_of_next hnext (ih distinct.2 ?_ _)
      intro a' ha' e he
      rcases List.mem_append.1 he with he | he
      · exact fresh a' (List.mem_cons_of_mem a ha') e he
      · obtain rfl := List.mem_singleton.1 he
        intro (hkeys : a.key = a'.key)
        have hmem : a'.key ∈ attributes.map (·.key) := List.mem_map_of_mem ha'
        rw [← hkeys] at hmem
        exact distinct.1 hmem

end Attributes

/-! ## Values -/

/-- The text of a raw value, if it has one. -/
def value? (raw : List UInt8) : Option String :=
  match textOf raw with
  | .error _ => none
  | .ok text => some (String.ofList text)

@[simp] theorem value?_encode_escape (text : List Char) :
    value? (Utf8.encode (escape text)) = some (String.ofList text) := by
  rw [value?, textOf_encode_escape]

/-- The keys with the texts of their raw values. -/
def values? : (pairs : List (List UInt8 × List UInt8)) → Option (List (List UInt8 × String))
  | [] => some []
  | p :: rest => do return (p.1, ← value? p.2) :: (← values? rest)

/-- The keys and values of the attributes of a tag, if every one can be
read. -/
def Tag.attributes? (tag : Tag) : Option (List (List UInt8 × String)) :=
  match Attributes.all [] tag.name.length tag.rest with
  | .error _ => none
  | .ok pairs => values? pairs

theorem values?_cons_eq_some {p : List UInt8 × List UInt8}
    {pairs : List (List UInt8 × List UInt8)} {attributes : List (List UInt8 × String)}
    (h : values? (p :: pairs) = some attributes) :
    ∃ value more, value? p.2 = some value ∧ values? pairs = some more ∧
      attributes = (p.1, value) :: more := by
  simp only [values?, Option.bind_eq_bind, Option.bind_eq_some_iff] at h
  obtain ⟨value, hvalue, more, hmore, hpure⟩ := h
  exact ⟨value, more, hvalue, hmore, (Option.some.inj hpure).symm⟩

private theorem lookup_values? (key : List UInt8) {pairs : List (List UInt8 × List UInt8)}
    {attributes : List (List UInt8 × String)} (h : values? pairs = some attributes) :
    (pairs.lookup key).map value? = (attributes.lookup key).map some := by
  induction pairs generalizing attributes with
  | nil =>
      obtain rfl : attributes = [] := (Option.some.inj h).symm
      rfl
  | cons p pairs ih =>
      obtain ⟨value, more, hvalue, hmore, rfl⟩ := values?_cons_eq_some h
      rw [List.lookup_cons, List.lookup_cons]
      split
      · rw [Option.map_some, Option.map_some, hvalue]
      · exact ih hmore

/-- Where all attributes of a tag can be read, the one that is asked for is
the first of its key. -/
theorem Tag.attribute?_of_attributes? {tag : Tag} {attributes : List (List UInt8 × String)}
    (h : tag.attributes? = some attributes) (key : String) :
    tag.attribute? key = .ok (attributes.lookup (Utf8.ofString key)) := by
  unfold Tag.attributes? at h
  split at h
  · cases h
  · next pairs hall =>
      have hfound := lookup_values? (Utf8.ofString key) h
      have hlookup := Attributes.lookup_of_all (Utf8.ofString key) hall
      cases hraw : pairs.lookup (Utf8.ofString key) with
      | none =>
          rw [hraw] at hlookup hfound
          have hnone : attributes.lookup (Utf8.ofString key) = none := by
            simpa using hfound.symm
          simp only [Tag.attribute?, hlookup, hnone]
      | some raw =>
          rw [hraw] at hlookup hfound
          obtain ⟨value, hvalue, hsome⟩ : ∃ value, value? raw = some value ∧
              attributes.lookup (Utf8.ofString key) = some value := by
            rw [Option.map_some, eq_comm, Option.map_eq_some_iff] at hfound
            obtain ⟨value, hsome, hvalue⟩ := hfound
            exact ⟨value, hvalue.symm, hsome⟩
          unfold value? at hvalue
          split at hvalue
          · cases hvalue
          · next text htext =>
              obtain rfl := Option.some.inj hvalue
              simp only [Tag.attribute?, hlookup, htext, hsome]

/-- The attributes of a written tag are those that were written. -/
theorem WrittenTag.attributes?_ofContent (tag : WrittenTag) {name : List UInt8}
    (hname : TagName name) :
    (Tag.ofContent (tag.content name)).attributes? =
      values? (tag.attributes.map fun a => (a.key, a.raw)) := by
  have hall : Attributes.all [] name.length tag.rest =
      .ok (tag.attributes.map fun a => (a.key, a.raw)) :=
    Attributes.all_flatMap tag.distinct (by simp) tag.trail_blank name.length
  rw [tag.ofContent_eq hname, Tag.attributes?]
  simp only [hall]

/-! ## Elements -/

/-- An element as it is read. -/
structure Element where
  /-- The name without the namespace. -/
  name : String
  attributes : List (List UInt8 × String)
  children : List Element

/-- The elements of content that has nothing else in it and whose attributes
can all be read. -/
def Content.elements? : Content → Option (List Element)
  | .nil => some []
  | .text _ _ | .cdata _ _ => none
  | .empty tag rest => do
      return ⟨tag.localName, ← tag.attributes?, []⟩ :: (← rest.elements?)
  | .element tag inner rest => do
      return ⟨tag.localName, ← tag.attributes?, ← inner.elements?⟩ :: (← rest.elements?)

section Elements

variable {tag : Tag} {inner rest : Content} {attributes : List (List UInt8 × String)}
  {children elements : List Element}

theorem Content.elements?_empty (htag : tag.attributes? = some attributes)
    (hrest : rest.elements? = some elements) :
    (Content.empty tag rest).elements? =
      some (⟨tag.localName, attributes, []⟩ :: elements) := by
  rw [Content.elements?, htag, hrest]
  rfl

theorem Content.elements?_element (htag : tag.attributes? = some attributes)
    (hinner : inner.elements? = some children) (hrest : rest.elements? = some elements) :
    (Content.element tag inner rest).elements? =
      some (⟨tag.localName, attributes, children⟩ :: elements) := by
  rw [Content.elements?, htag, hinner, hrest]
  rfl

end Elements

/-- The tag has the name of the element.  Asked for any attribute, it gives the
value that the element has for it, or none. -/
def Tag.Answers (tag : Tag) (e : Element) : Prop :=
  tag.localName = e.name ∧
    ∀ key, tag.attribute? key = .ok (e.attributes.lookup (Utf8.ofString key))

/-- The content consists of the elements, whose tags answer as they say. -/
def Content.Answers : (content : Content) → (elements : List Element) → Prop
  | .nil, [] => True
  | .empty tag rest, e :: elements => tag.Answers e ∧ e.children = [] ∧ rest.Answers elements
  | .element tag inner rest, e :: elements =>
      tag.Answers e ∧ inner.Answers e.children ∧ rest.Answers elements
  | _, _ => False

/-- Asking the tags one by one gives what reading all of them gives. -/
theorem Content.answers_of_elements? {content : Content} {elements : List Element}
    (h : content.elements? = some elements) : content.Answers elements := by
  induction content generalizing elements with
  | nil =>
      obtain rfl := Option.some.inj h
      exact trivial
  | text raw rest | cdata raw rest => cases h
  | empty tag rest ih =>
      simp only [Content.elements?, Option.bind_eq_bind, Option.bind_eq_some_iff] at h
      obtain ⟨attributes, htag, others, hrest, hpure⟩ := h
      obtain rfl := Option.some.inj hpure
      exact ⟨⟨rfl, Tag.attribute?_of_attributes? htag⟩, rfl, ih hrest⟩
  | element tag inner rest ihInner ihRest =>
      simp only [Content.elements?, Option.bind_eq_bind, Option.bind_eq_some_iff] at h
      obtain ⟨attributes, htag, children, hinner, others, hrest, hpure⟩ := h
      obtain rfl := Option.some.inj hpure
      exact ⟨⟨rfl, Tag.attribute?_of_attributes? htag⟩, ihInner hinner, ihRest hrest⟩

end GroovyFindings.Xml
