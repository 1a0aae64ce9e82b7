import GroovyFindings.Proofs.Xml.Stretch

/-!
# Element trees

The events of a document that closes every tag it opens are those of an
element tree, read from left to right, and the tree is determined by them.
A self-closing tag keeps apart from an element without content: the two
yield different events.

## Main definitions

* `Content` — a sequence of text, literal sections and elements.
* `Content.events` — what it yields.
* `depthBehind?` — how many tags are open behind events.

## Main results

* `exists_content_iff` — events that close what they open are those of
  some content.
* `Content.events_injective` — which is the only one.
* `Stretch.exists_content` — a stretch that closes what it opens has content.
-/

namespace GroovyFindings.Xml

/-- What stands between a start tag and its end tag, or in a document. -/
inductive Content where
  | nil
  | text (raw : List UInt8) (rest : Content)
  | cdata (raw : List UInt8) (rest : Content)
  /-- A self-closing tag. -/
  | empty (tag : Tag) (rest : Content)
  | element (tag : Tag) (inner rest : Content)
deriving DecidableEq

/-- The events of content. -/
def Content.events : Content → List Event
  | .nil => []
  | .text raw rest => .text raw :: rest.events
  | .cdata raw rest => .cdata raw :: rest.events
  | .empty tag rest => .empty tag :: rest.events
  | .element tag inner rest => .start tag :: (inner.events ++ .close :: rest.events)

/-- Content of a document: its events, read without a fault. -/
def Content.IsOf (content : Content) (bytes : List UInt8) : Prop :=
  Xml.events ⟨bytes, none⟩ = (content.events, none)

/-! ## Depth -/

/-- The number of open tags behind an event, if it closes none that is not
open. -/
def Event.depthBehind? (depth : Nat) : Event → Option Nat
  | .start _ => some (depth + 1)
  | .close =>
      match depth with
      | 0 => none
      | outer + 1 => some outer
  | .empty _ | .text _ | .cdata _ => some depth

/-- The number of open tags behind events. -/
def depthBehind? (depth : Nat) : (events : List Event) → Option Nat
  | [] => some depth
  | e :: rest =>
      match e.depthBehind? depth with
      | some depth' => depthBehind? depth' rest
      | none => none

theorem depthBehind?_append (depth : Nat) (es es' : List Event) :
    depthBehind? depth (es ++ es') =
      (depthBehind? depth es).bind fun d => depthBehind? d es' := by
  induction es generalizing depth with
  | nil => rfl
  | cons e es ih =>
      simp only [List.cons_append, depthBehind?]
      split
      · exact ih _
      · rfl

theorem Event.depthBehind?_of_isLevel {e : Event} (h : e.isLevel = true) (depth : Nat) :
    e.depthBehind? depth = some depth := by
  cases e with
  | start _ | close => cases h
  | empty _ | text _ | cdata _ => rfl

theorem depthBehind?_of_ofToken {opened opened' : List (List UInt8)} {token : Token}
    {event : Option Event} (h : Event.ofToken opened token = .ok (event, opened')) :
    depthBehind? opened.length event.toList = some opened'.length := by
  rcases ofToken_eq_ok h with ⟨rfl, -, hlevel⟩ | ⟨tag, rfl, rfl, -⟩ | ⟨_, _, -, -, rfl, rfl⟩
  · cases event with
    | none => rfl
    | some e => simp [depthBehind?, Event.depthBehind?_of_isLevel (hlevel e rfl)]
  · rfl
  · rfl

/-- The events of a document close no tag that is not open. -/
theorem exists_depthBehind?_eventsFrom (fault : Option Disk.Fault)
    (opened : List (List UInt8)) (bytes : List UInt8) :
    ∃ depth, depthBehind? opened.length (eventsFrom fault opened bytes).1 =
      some depth := by
  induction hn : bytes.length using Nat.strongRecOn generalizing opened bytes with
  | _ n ih =>
      cases hnext : Token.next ⟨bytes, fault⟩ with
      | error e => exact ⟨opened.length, by rw [eventsFrom_of_error hnext]; rfl⟩
      | ok next =>
          cases next with
          | none => exact ⟨opened.length, by rw [eventsFrom_of_end hnext]; rfl⟩
          | some p =>
              obtain ⟨token, rest⟩ := p
              rw [eventsFrom_of_token hnext]
              cases htaken : Event.ofToken opened token with
              | error e => exact ⟨opened.length, rfl⟩
              | ok q =>
                  obtain ⟨event, opened'⟩ := q
                  have hlt : rest.length < n := hn ▸ Token.next_length_lt hnext
                  obtain ⟨depth, hdepth⟩ := ih rest.length hlt opened' rest rfl
                  refine ⟨depth, ?_⟩
                  simp only [depthBehind?_append, depthBehind?_of_ofToken htaken,
                    Option.bind_some, hdepth]

/-! ## Content -/

/-- Events begin with content and go on with the end tag that closes the
innermost open tag, if one is open. -/
theorem exists_content_append {depth : Nat} {es : List Event}
    (h : depthBehind? depth es = some 0) :
    ∃ content : Content, depth = 0 ∧ es = content.events ∨
      ∃ outer rest, depth = outer + 1 ∧ es = content.events ++ .close :: rest ∧
        depthBehind? outer rest = some 0 := by
  induction hn : es.length using Nat.strongRecOn generalizing depth es with
  | _ n ih =>
      subst hn
      cases es with
      | nil =>
          obtain rfl : depth = 0 := by simpa [depthBehind?] using h
          exact ⟨.nil, .inl ⟨rfl, rfl⟩⟩
      | cons e es =>
          have hlt : es.length < (e :: es).length := by simp
          cases e with
          | text raw =>
              have htail : depthBehind? depth es = some 0 := h
              obtain ⟨content, ⟨rfl, rfl⟩ | ⟨outer, rest, rfl, rfl, hrest⟩⟩ :=
                ih _ hlt htail rfl
              · exact ⟨.text raw content, .inl ⟨rfl, rfl⟩⟩
              · exact ⟨.text raw content, .inr ⟨outer, rest, rfl, rfl, hrest⟩⟩
          | cdata raw =>
              have htail : depthBehind? depth es = some 0 := h
              obtain ⟨content, ⟨rfl, rfl⟩ | ⟨outer, rest, rfl, rfl, hrest⟩⟩ :=
                ih _ hlt htail rfl
              · exact ⟨.cdata raw content, .inl ⟨rfl, rfl⟩⟩
              · exact ⟨.cdata raw content, .inr ⟨outer, rest, rfl, rfl, hrest⟩⟩
          | empty tag =>
              have htail : depthBehind? depth es = some 0 := h
              obtain ⟨content, ⟨rfl, rfl⟩ | ⟨outer, rest, rfl, rfl, hrest⟩⟩ :=
                ih _ hlt htail rfl
              · exact ⟨.empty tag content, .inl ⟨rfl, rfl⟩⟩
              · exact ⟨.empty tag content, .inr ⟨outer, rest, rfl, rfl, hrest⟩⟩
          | close =>
              cases depth with
              | zero => simp [depthBehind?, Event.depthBehind?] at h
              | succ outer => exact ⟨.nil, .inr ⟨outer, es, rfl, rfl, h⟩⟩
          | start tag =>
              -- the content of the element first, then what follows its end tag
              have hinner : depthBehind? (depth + 1) es = some 0 := h
              obtain ⟨inner, ⟨hzero, -⟩ | ⟨outer, rest, hdepth, rfl, hrest⟩⟩ :=
                ih _ hlt hinner rfl
              · omega
              · obtain rfl : depth = outer := by omega
                have hlt' : rest.length <
                    (Event.start tag :: (inner.events ++ .close :: rest)).length := by
                  simp only [List.length_cons, List.length_append]
                  omega
                obtain ⟨content, ⟨rfl, rfl⟩ | ⟨outer, rest', rfl, rfl, hrest'⟩⟩ :=
                  ih _ hlt' hrest rfl
                · exact ⟨.element tag inner content, .inl ⟨rfl, rfl⟩⟩
                · refine ⟨.element tag inner content,
                    .inr ⟨outer, rest', rfl, ?_, hrest'⟩⟩
                  simp only [Content.events, List.cons_append, List.append_assoc]

theorem Content.depthBehind?_events (content : Content) (depth : Nat) :
    depthBehind? depth content.events = some depth := by
  induction content generalizing depth with
  | nil => rfl
  | text raw rest ih => exact ih depth
  | cdata raw rest ih => exact ih depth
  | empty tag rest ih => exact ih depth
  | element tag inner rest ihInner ihRest =>
      have hinner := ihInner (depth + 1)
      simp only [Content.events, depthBehind?, Event.depthBehind?, depthBehind?_append,
        hinner, Option.bind_some, ihRest]

/-- Events that close what they open are those of some content. -/
theorem exists_content_iff {es : List Event} :
    (∃ content : Content, es = content.events) ↔ depthBehind? 0 es = some 0 := by
  constructor
  · rintro ⟨content, rfl⟩
    exact content.depthBehind?_events 0
  · intro h
    obtain ⟨content, ⟨-, hes⟩ | ⟨outer, rest, hzero, -⟩⟩ := exists_content_append h
    · exact ⟨content, hes⟩
    · omega

/-- Events that are those of content, the end of the document or an end tag
behind them, are so in one way only. -/
theorem Content.eq_of_events_append {content content' : Content} {es es' : List Event}
    (h : content.events ++ es = content'.events ++ es')
    (hes : es = [] ∨ ∃ rest, es = .close :: rest)
    (hes' : es' = [] ∨ ∃ rest, es' = .close :: rest) :
    content = content' ∧ es = es' := by
  induction content generalizing content' es es' with
  | nil =>
      cases content' with
      | nil => exact ⟨rfl, h⟩
      | text _ _ | cdata _ _ | empty _ _ | element _ _ _ =>
          rcases hes with rfl | ⟨rest, rfl⟩ <;> simp [Content.events] at h
  | text raw rest ih =>
      cases content' with
      | text raw' rest' =>
          obtain ⟨hraw, hrest⟩ := List.cons.inj h
          obtain ⟨rfl, rfl⟩ := ih hrest hes hes'
          exact ⟨by rw [Event.text.inj hraw], rfl⟩
      | nil => rcases hes' with rfl | ⟨rest, rfl⟩ <;> simp [Content.events] at h
      | cdata _ _ | empty _ _ | element _ _ _ => simp [Content.events] at h
  | cdata raw rest ih =>
      cases content' with
      | cdata raw' rest' =>
          obtain ⟨hraw, hrest⟩ := List.cons.inj h
          obtain ⟨rfl, rfl⟩ := ih hrest hes hes'
          exact ⟨by rw [Event.cdata.inj hraw], rfl⟩
      | nil => rcases hes' with rfl | ⟨rest, rfl⟩ <;> simp [Content.events] at h
      | text _ _ | empty _ _ | element _ _ _ => simp [Content.events] at h
  | empty tag rest ih =>
      cases content' with
      | empty tag' rest' =>
          obtain ⟨htag, hrest⟩ := List.cons.inj h
          obtain ⟨rfl, rfl⟩ := ih hrest hes hes'
          exact ⟨by rw [Event.empty.inj htag], rfl⟩
      | nil => rcases hes' with rfl | ⟨rest, rfl⟩ <;> simp [Content.events] at h
      | text _ _ | cdata _ _ | element _ _ _ => simp [Content.events] at h
  | element tag inner rest ihInner ihRest =>
      cases content' with
      | element tag' inner' rest' =>
          simp only [Content.events, List.cons_append, List.append_assoc] at h
          obtain ⟨htag, htail⟩ := List.cons.inj h
          obtain ⟨rfl, hclose⟩ := ihInner htail (.inr ⟨_, rfl⟩) (.inr ⟨_, rfl⟩)
          obtain ⟨rfl, rfl⟩ := ihRest (List.cons.inj hclose).2 hes hes'
          exact ⟨by rw [Event.start.inj htag], rfl⟩
      | nil => rcases hes' with rfl | ⟨rest, rfl⟩ <;> simp [Content.events] at h
      | text _ _ | cdata _ _ | empty _ _ => simp [Content.events] at h

theorem Content.events_injective {content content' : Content}
    (h : content.events = content'.events) : content = content' := by
  have happend : content.events ++ [] = content'.events ++ [] := by rw [h]
  exact (Content.eq_of_events_append happend (.inl rfl) (.inl rfl)).1

theorem Content.IsOf.unique {content content' : Content} {bytes : List UInt8}
    (h : content.IsOf bytes) (h' : content'.IsOf bytes) : content = content' :=
  Content.events_injective (Prod.mk.inj (h.symm.trans h')).1

/-- A stretch leaves as many tags open as its events do. -/
theorem Stretch.depthBehind?_eq {opened opened' : List (List UInt8)}
    {bytes : List UInt8} {events : List Event}
    (h : Stretch opened bytes events opened') :
    depthBehind? opened.length events = some opened'.length := by
  induction h with
  | nil => rfl
  | @markup opened inner opened' text m bytes token event events plain complete taken
      rest ih =>
      have htext : depthBehind? opened.length (textEvents text) =
          some opened.length := by
        rcases textEvents_cases text with hblank | ⟨raw, hraw⟩
        · rw [hblank]
          rfl
        · rw [hraw]
          rfl
      rw [depthBehind?_append, htext, Option.bind_some, depthBehind?_append,
        depthBehind?_of_ofToken taken, Option.bind_some]
      exact ih

/-- A stretch that closes what it opens has content. -/
theorem Stretch.exists_content {bytes : List UInt8} {events : List Event}
    (h : Stretch [] bytes events []) : ∃ content : Content, events = content.events :=
  exists_content_iff.2 h.depthBehind?_eq

end GroovyFindings.Xml
