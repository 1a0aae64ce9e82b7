import GroovyFindings.Proofs.Xml.Content
import Mathlib.Data.List.Induction

/-!
# Open elements and top-level elements

Two things can be said about the events of a document, also where they stop
before its end: which elements are open behind them, and which elements stand
outside of all others.  The first is said by cutting the events at the start tags
that have no end tag, so that content is left between the cuts; the second by
counting how many tags are open.

## Main definitions

* `OpenBehind` — the elements that are open behind events.
* `topLevel` — the elements that stand outside of all others.

## Main results

* `OpenBehind.append`, `OpenBehind.close` — content and an end tag behind events.
* `exists_openBehind_iff` — events that close nothing that is not open.
* `exists_openBehind_events` — the events of any document are such.
* `topLevel_eq_nil_iff` — events without elements.
-/

namespace GroovyFindings.Xml

variable {tags : List Tag} {events : List Event} {tag : Tag} {depth : Nat}

/-! ## Open elements -/

/-- The elements with the given tags, the innermost first, are open behind the
events: there is content before the outermost of the tags and behind each. -/
inductive OpenBehind : (tags : List Tag) → (events : List Event) → Prop
  | document (content : Content) : OpenBehind [] content.events
  | inside {tags : List Tag} {events : List Event} (around : OpenBehind tags events) (tag : Tag)
      (content : Content) : OpenBehind (tag :: tags) (events ++ .start tag :: content.events)

/-- Content behind content is content. -/
theorem Content.exists_events_append (content content' : Content) :
    ∃ both : Content, content.events ++ content'.events = both.events := by
  apply exists_content_iff.2
  rw [depthBehind?_append, content.depthBehind?_events]
  exact content'.depthBehind?_events 0

theorem OpenBehind.depthBehind?_eq (h : OpenBehind tags events) :
    depthBehind? 0 events = some tags.length := by
  induction h with
  | document content => exact content.depthBehind?_events 0
  | @inside tags events around tag content ih =>
      rw [depthBehind?_append, ih]
      exact content.depthBehind?_events (tags.length + 1)

/-- Content leaves the open elements as they are. -/
theorem OpenBehind.append (h : OpenBehind tags events) (content : Content) :
    OpenBehind tags (events ++ content.events) := by
  cases h with
  | document before =>
      obtain ⟨both, hboth⟩ := before.exists_events_append content
      rw [hboth]
      exact .document both
  | inside around tag before =>
      obtain ⟨both, hboth⟩ := before.exists_events_append content
      rw [List.append_assoc, List.cons_append, hboth]
      exact .inside around tag both

/-- An end tag closes the innermost open element. -/
theorem OpenBehind.close (h : OpenBehind (tag :: tags) events) :
    OpenBehind tags (events ++ [.close]) := by
  cases h with
  | inside around tag content =>
      have element := around.append (.element tag content .nil)
      simpa [Content.events] using element

/-- Events that close nothing that is not open leave some elements open. -/
theorem exists_openBehind_iff :
    (∃ tags, OpenBehind tags events) ↔ ∃ depth, depthBehind? 0 events = some depth := by
  constructor
  · rintro ⟨tags, h⟩
    exact ⟨tags.length, h.depthBehind?_eq⟩
  · rintro ⟨depth, hdepth⟩
    induction events using List.reverseRecOn generalizing depth with
    | nil => exact ⟨[], .document .nil⟩
    | append_singleton events e ih =>
        rw [depthBehind?_append] at hdepth
        obtain ⟨depth', hbefore, hlast⟩ := Option.bind_eq_some_iff.1 hdepth
        obtain ⟨tags, h⟩ := ih depth' hbefore
        cases e with
        | start tag => exact ⟨tag :: tags, .inside h tag .nil⟩
        | empty tag => exact ⟨tags, h.append (.empty tag .nil)⟩
        | text raw => exact ⟨tags, h.append (.text raw .nil)⟩
        | cdata raw => exact ⟨tags, h.append (.cdata raw .nil)⟩
        | close =>
            obtain rfl : depth' = tags.length := by
              rw [h.depthBehind?_eq] at hbefore
              exact (Option.some.inj hbefore).symm
            cases tags with
            | nil => cases hlast
            | cons tag tags => exact ⟨tags, h.close⟩

/-- A beginning of such events is one. -/
theorem OpenBehind.exists_of_prefix {before : List Event} (h : OpenBehind tags events)
    (begins : before <+: events) : ∃ tags', OpenBehind tags' before := by
  obtain ⟨after, rfl⟩ := begins
  have hdepth := h.depthBehind?_eq
  rw [depthBehind?_append] at hdepth
  obtain ⟨depth, hbefore, -⟩ := Option.bind_eq_some_iff.1 hdepth
  exact exists_openBehind_iff.2 ⟨depth, hbefore⟩

/-- The end tags of a document match: whatever its bytes are and however they
end, its events close nothing that is not open. -/
theorem exists_openBehind_events (input : Input) :
    ∃ tags, OpenBehind tags (Xml.events input).1 :=
  exists_openBehind_iff.2 (exists_depthBehind?_eventsFrom input.fault [] _)

/-! ## Top-level elements -/

/-- The tag of the element that an event begins where `depth` tags are open, if
it begins one and none is. -/
def Event.topLevel? (depth : Nat) : Event → Option Tag
  | .start tag | .empty tag => if depth = 0 then some tag else none
  | .close | .text _ | .cdata _ => none

/-- The tags of the elements that stand outside of all others, where `depth` tags
are open before the events. -/
def topLevel (depth : Nat) : (events : List Event) → List Tag
  | [] => []
  | e :: rest => (e.topLevel? depth).toList ++ topLevel ((e.depthBehind? depth).getD depth) rest

theorem topLevel_cons {e : Event} {depth' : Nat} (h : e.depthBehind? depth = some depth')
    (rest : List Event) :
    topLevel depth (e :: rest) = (e.topLevel? depth).toList ++ topLevel depth' rest := by
  rw [topLevel, h, Option.getD_some]

theorem Event.eq_of_topLevel?_eq_some {e : Event} (h : e.topLevel? depth = some tag) :
    depth = 0 ∧ (e = .start tag ∨ e = .empty tag) := by
  cases e with
  | start tag' | empty tag' =>
      simp only [Event.topLevel?] at h
      split at h
      · next outside =>
        obtain rfl := Option.some.inj h
        exact ⟨outside, by simp⟩
      · cases h
  | close | text _ | cdata _ => cases h

/-- Where no tag is open before the events, the first element stands outside of
all others. -/
theorem topLevel_eq_nil_iff (matched : depthBehind? 0 events = some depth) :
    topLevel 0 events = [] ↔ ∀ tag, .start tag ∉ events ∧ .empty tag ∉ events := by
  induction events with
  | nil => simp [topLevel]
  | cons e rest ih =>
      cases e with
      | start tag | empty tag =>
          simp only [topLevel, Event.topLevel?, if_true, Option.toList_some, List.cons_append,
            reduceCtorEq, false_iff]
          intro noTags
          simpa using noTags tag
      | close => cases matched
      | text raw | cdata raw =>
          have hrest := ih matched
          simpa [topLevel, Event.topLevel?, Event.depthBehind?] using hrest

/-- An open element lies in a top-level element or is one. -/
theorem OpenBehind.eq_nil_of_topLevel (h : OpenBehind tags events)
    (noTop : topLevel 0 events = []) : tags = [] := by
  cases h with
  | document content => rfl
  | @inside tags events around tag content =>
      have absent := (topLevel_eq_nil_iff (around.inside tag content).depthBehind?_eq).1 noTop tag
      exact absurd (by simp) absent.1

end GroovyFindings.Xml
