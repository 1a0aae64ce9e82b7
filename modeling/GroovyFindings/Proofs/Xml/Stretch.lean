import GroovyFindings.Proofs.Xml.Markup
import Mathlib.Data.List.TakeWhile

/-!
# Stretches of a document

A stretch is a sequence of complete markup with text before each piece.  It
is read alike whatever follows, so the events of a document are those of a
stretch at its beginning and those of the rest.

Text is not complete in this sense: it goes on until the next opening
bracket.  A balanced piece of a document is therefore a stretch that closes
what it opens, and only that, with text behind it.

## Main definitions

* `textEvents` — what text between two pieces of markup yields.
* `Stretch` — a stretch, its events and the tags open before and behind it.
* `Balanced` — pieces that close what they open.

## Main results

* `ofToken_eq_ok` — what a token does to the open tags.
* `Stretch.eventsFrom_append` — a stretch is read before what follows it.
* `exists_stretch_append` — every document is a stretch and a rest in which
  no complete markup can be read.
-/

namespace GroovyFindings.Xml

variable {fault : Option Disk.Fault} {opened opened' : List (List UInt8)}

/-! ## One token -/

theorem eventsFrom_of_error {bytes : List UInt8} {e : Error}
    (h : Token.next ⟨bytes, fault⟩ = .error e) :
    eventsFrom fault opened bytes = ([], some e) := by
  rw [eventsFrom]
  split
  · next heq =>
      rw [h] at heq
      rw [Except.error.inj heq]
  · next heq => rw [h] at heq; cases heq
  · next heq => rw [h] at heq; cases heq

theorem eventsFrom_of_end {bytes : List UInt8}
    (h : Token.next ⟨bytes, fault⟩ = .ok none) :
    eventsFrom fault opened bytes = ([], none) := by
  rw [eventsFrom]
  split
  · next heq => rw [h] at heq; cases heq
  · rfl
  · next heq => rw [h] at heq; cases heq

theorem eventsFrom_of_token {bytes rest : List UInt8} {token : Token}
    (h : Token.next ⟨bytes, fault⟩ = .ok (some (token, rest))) :
    eventsFrom fault opened bytes =
      match Event.ofToken opened token with
      | .error e => ([], some e)
      | .ok (event, opened') =>
          (event.toList ++ (eventsFrom fault opened' rest).1,
            (eventsFrom fault opened' rest).2) := by
  rw [eventsFrom]
  split
  · next heq => rw [h] at heq; cases heq
  · next heq => rw [h] at heq; cases heq
  · next heq =>
      rw [h] at heq
      obtain ⟨rfl, rfl⟩ := by simpa using heq
      rfl

private theorem eventsFrom_congr {as bs : List UInt8}
    (h : Token.next ⟨as, fault⟩ = Token.next ⟨bs, fault⟩) :
    eventsFrom fault opened as = eventsFrom fault opened bs := by
  cases hnext : Token.next ⟨bs, fault⟩ with
  | error e =>
      rw [hnext] at h
      rw [eventsFrom_of_error h, eventsFrom_of_error hnext]
  | ok next =>
      rw [hnext] at h
      cases next with
      | none => rw [eventsFrom_of_end h, eventsFrom_of_end hnext]
      | some p =>
          rw [eventsFrom_of_token h, eventsFrom_of_token hnext]

/-! ## Text and markup -/

/-- What the text between two pieces of markup yields: nothing, if it is
blank. -/
def textEvents (text : List UInt8) : List Event :=
  match text.dropWhile isSpace with
  | [] => []
  | ink => [.text (Text.dropEndWhile isSpace ink)]

theorem textEvents_cases (text : List UInt8) :
    textEvents text = [] ∨ ∃ raw, textEvents text = [.text raw] := by
  unfold textEvents
  split
  · exact .inl rfl
  · exact .inr ⟨_, rfl⟩

private theorem inText {b : UInt8} {text : List UInt8} (h : 0x3C ∉ text)
    (hb : b ∈ text) : (b != 0x3C) = true := by
  simp only [bne_iff_ne, ne_eq]
  rintro rfl
  exact h hb

private theorem takeWhile_append_bracket {text : List UInt8} (h : 0x3C ∉ text)
    (rest : List UInt8) :
    (text ++ 0x3C :: rest).takeWhile (· != 0x3C) = text := by
  rw [List.takeWhile_append_of_pos fun b => inText h]
  simp

private theorem dropWhile_append_bracket {text : List UInt8} (h : 0x3C ∉ text)
    (rest : List UInt8) :
    (text ++ 0x3C :: rest).dropWhile (· != 0x3C) = 0x3C :: rest := by
  rw [List.dropWhile_append_of_pos fun b => inText h]
  simp

private theorem not_mem_dropWhile {text : List UInt8} (h : 0x3C ∉ text) :
    0x3C ∉ text.dropWhile isSpace :=
  fun hmem => h ((List.dropWhile_suffix _).subset hmem)

/-- Text that markup follows. -/
theorem eventsFrom_text_append {text : List UInt8} (h : 0x3C ∉ text)
    (rest : List UInt8) :
    eventsFrom fault opened (text ++ 0x3C :: rest) =
      (textEvents text ++ (eventsFrom fault opened (0x3C :: rest)).1,
        (eventsFrom fault opened (0x3C :: rest)).2) := by
  have hskip : (text ++ 0x3C :: rest).dropWhile isSpace =
      text.dropWhile isSpace ++ 0x3C :: rest := by
    rw [List.dropWhile_append]
    split
    · next hblank => simp [List.isEmpty_iff.1 hblank, isSpace]
    · rfl
  unfold textEvents
  split
  · next hblank =>
      rw [hblank, List.nil_append] at hskip
      rw [List.nil_append]
      apply eventsFrom_congr
      simp only [Token.next, hskip]
      rfl
  · next hink =>
      obtain ⟨b, ink, hcons⟩ := List.exists_cons_of_ne_nil hink
      have hnot := not_mem_dropWhile h
      rw [hcons] at hskip hnot ⊢
      have hb : b ≠ 0x3C := by
        rintro rfl
        simp at hnot
      have hnext : Token.next ⟨text ++ 0x3C :: rest, fault⟩ =
          .ok (some (.text (Text.dropEndWhile isSpace (b :: ink)), 0x3C :: rest)) := by
        have htake := takeWhile_append_bracket hnot rest
        have hdrop := dropWhile_append_bracket hnot rest
        rw [List.cons_append] at hskip htake hdrop
        simp only [Token.next, hskip, htake, hdrop, if_neg hb]
      rw [eventsFrom_of_token hnext]
      rfl

/-- Text that the document ends behind. -/
theorem eventsFrom_text {text : List UInt8} (h : 0x3C ∉ text) :
    eventsFrom none opened text = (textEvents text, none) := by
  unfold textEvents
  split
  · next hblank =>
      apply eventsFrom_of_end
      simp only [Token.next, hblank]
      rfl
  · next hink =>
      obtain ⟨b, ink, hcons⟩ := List.exists_cons_of_ne_nil hink
      have hnot := not_mem_dropWhile h
      rw [hcons] at hnot ⊢
      have hb : b ≠ 0x3C := by
        rintro rfl
        simp at hnot
      have htake : (b :: ink).takeWhile (· != 0x3C) = b :: ink := by
        rw [List.takeWhile_eq_self_iff]
        exact fun c hc => inText hnot hc
      have hdrop : (b :: ink).dropWhile (· != 0x3C) = [] := by
        rw [List.dropWhile_eq_nil_iff]
        exact fun c hc => inText hnot hc
      have hnext : Token.next ⟨text, none⟩ =
          .ok (some (.text (Text.dropEndWhile isSpace (b :: ink)), [])) := by
        simp only [Token.next, hcons, if_neg hb, htake, hdrop]
        rfl
      rw [eventsFrom_of_token hnext]
      have hend : eventsFrom none opened [] = ([], none) := eventsFrom_of_end rfl
      simp [Event.ofToken, hend]

theorem next_bracket (rest : List UInt8) :
    Token.next ⟨0x3C :: rest, fault⟩ = Token.markup ⟨0x3C :: rest, fault⟩ rest := by
  simp [Token.next, isSpace]

/-- Markup is read first, if it can be, and then the rest. -/
theorem eventsFrom_bracket (opened : List (List UInt8)) (body : List UInt8) :
    (∃ e, (eventsFrom fault opened (0x3C :: body)).2 = some e) ∨
      (Token.markup ⟨0x3C :: body, fault⟩ body = .ok none ∧
        eventsFrom fault opened (0x3C :: body) = ([], none)) ∨
      ∃ token rest event opened',
        Token.markup ⟨0x3C :: body, fault⟩ body = .ok (some (token, rest)) ∧
        Event.ofToken opened token = .ok (event, opened') ∧
        eventsFrom fault opened (0x3C :: body) =
          (event.toList ++ (eventsFrom fault opened' rest).1,
            (eventsFrom fault opened' rest).2) := by
  have hnext : Token.next ⟨0x3C :: body, fault⟩ = Token.markup ⟨0x3C :: body, fault⟩ body :=
    next_bracket body
  cases hmarkup : Token.markup ⟨0x3C :: body, fault⟩ body with
  | error e =>
      rw [hmarkup] at hnext
      exact .inl ⟨e, by rw [eventsFrom_of_error hnext]⟩
  | ok next =>
      rw [hmarkup] at hnext
      cases next with
      | none => exact .inr (.inl ⟨rfl, eventsFrom_of_end hnext⟩)
      | some p =>
          obtain ⟨token, rest⟩ := p
          rw [eventsFrom_of_token hnext]
          cases taken : Event.ofToken opened token with
          | error e => exact .inl ⟨e, rfl⟩
          | ok q =>
              obtain ⟨event, opened'⟩ := q
              exact .inr (.inr ⟨token, rest, event, opened', rfl, taken, rfl⟩)

/-- Complete markup, and then the rest. -/
theorem eventsFrom_complete {token : Token} {m : List UInt8} {event : Option Event}
    (complete : Token.Complete token m)
    (taken : Event.ofToken opened token = .ok (event, opened')) (rest : List UInt8) :
    eventsFrom fault opened (0x3C :: (m ++ rest)) =
      (event.toList ++ (eventsFrom fault opened' rest).1,
        (eventsFrom fault opened' rest).2) := by
  have hnext : Token.next ⟨0x3C :: (m ++ rest), fault⟩ = .ok (some (token, rest)) := by
    rw [next_bracket, Token.markup_complete complete]
  rw [eventsFrom_of_token hnext, taken]

/-! ## Stretches -/

/-- The bytes are complete markup with text before each piece; they yield
`events` and lead from `opened` to the tags in the last argument. -/
inductive Stretch : (opened : List (List UInt8)) → (bytes : List UInt8) →
    (events : List Event) → (opened' : List (List UInt8)) → Prop where
  | nil {opened : List (List UInt8)} : Stretch opened [] [] opened
  | markup {opened inner opened' : List (List UInt8)} {text m bytes : List UInt8}
      {token : Token} {event : Option Event} {events : List Event}
      (plain : 0x3C ∉ text) (complete : Token.Complete token m)
      (taken : Event.ofToken opened token = .ok (event, inner))
      (rest : Stretch inner bytes events opened') :
      Stretch opened (text ++ 0x3C :: (m ++ bytes))
        (textEvents text ++ (event.toList ++ events)) opened'

namespace Stretch

variable {bytes : List UInt8} {events : List Event}

/-- A stretch is read before what follows it. -/
theorem eventsFrom_append (h : Stretch opened bytes events opened')
    (rest : List UInt8) :
    eventsFrom fault opened (bytes ++ rest) =
      (events ++ (eventsFrom fault opened' rest).1,
        (eventsFrom fault opened' rest).2) := by
  induction h with
  | nil => rfl
  | @markup opened inner opened' text m bytes token event events plain complete taken
      _ ih =>
      calc
        eventsFrom fault opened ((text ++ 0x3C :: (m ++ bytes)) ++ rest)
          = eventsFrom fault opened (text ++ 0x3C :: (m ++ (bytes ++ rest))) := by
            simp only [List.append_assoc, List.cons_append]
        _ = _ := by
            rw [eventsFrom_text_append plain, eventsFrom_complete complete taken, ih]
            simp only [List.append_assoc]

theorem append {opened'' : List (List UInt8)} {bytes' : List UInt8}
    {events' : List Event} (h : Stretch opened bytes events opened')
    (h' : Stretch opened' bytes' events' opened'') :
    Stretch opened (bytes ++ bytes') (events ++ events') opened'' := by
  induction h with
  | nil => exact h'
  | @markup opened inner opened' text m bytes token event events plain complete taken
      _ ih =>
      have := Stretch.markup plain complete taken (ih h')
      simpa only [List.append_assoc, List.cons_append] using this

end Stretch

/-! ## Open tags -/

/-- As many tags are open behind the event as before it. -/
def Event.isLevel : Event → Bool
  | .start _ => false
  | .close => false
  | _ => true

/-- A token leaves the open tags as they are, or opens one, whichever they are;
or it is an end tag and closes the innermost one. -/
theorem ofToken_eq_ok {token : Token} {event : Option Event}
    (h : Event.ofToken opened token = .ok (event, opened')) :
    (opened' = opened ∧ (∀ other, Event.ofToken other token = .ok (event, other)) ∧
        ∀ e ∈ event, e.isLevel = true) ∨
      (∃ tag, event = some (.start tag) ∧ opened' = tag.name :: opened ∧
        ∀ other, Event.ofToken other token = .ok (event, tag.name :: other)) ∨
      ∃ content name, token = .endTag content ∧ endName content = name ∧
        event = some .close ∧ opened = name :: opened' := by
  cases token with
  | text raw =>
      obtain ⟨rfl, rfl⟩ := by simpa [Event.ofToken] using h
      exact .inl ⟨rfl, fun _ => rfl, by simp [Event.isLevel]⟩
  | cdata raw =>
      obtain ⟨rfl, rfl⟩ := by simpa [Event.ofToken] using h
      exact .inl ⟨rfl, fun _ => rfl, by simp [Event.isLevel]⟩
  | skipped =>
      obtain ⟨rfl, rfl⟩ := by simpa [Event.ofToken] using h
      exact .inl ⟨rfl, fun _ => rfl, by simp⟩
  | tag content =>
      simp only [Event.ofToken] at h ⊢
      split at h
      · next hempty =>
          obtain ⟨rfl, rfl⟩ := by simpa using h
          simp [if_pos hempty, Event.isLevel]
      · next hstart =>
          obtain ⟨rfl, rfl⟩ := by simpa using h
          simp [if_neg hstart]
  | endTag content =>
      cases opened with
      | nil => simp [Event.ofToken] at h
      | cons name outer =>
          simp only [Event.ofToken] at h
          split at h
          · next hname =>
              obtain ⟨rfl, rfl⟩ := by simpa using h
              exact .inr (.inr ⟨content, name, rfl, hname, rfl, rfl⟩)
          · simp at h

/-- Tags that stay open all the while make no difference. -/
theorem ofToken_append {token : Token} {event : Option Event}
    (h : Event.ofToken opened token = .ok (event, opened'))
    (outer : List (List UInt8)) :
    Event.ofToken (opened ++ outer) token = .ok (event, opened' ++ outer) := by
  rcases ofToken_eq_ok h with ⟨rfl, hsame, -⟩ | ⟨tag, rfl, rfl, hstart⟩ |
    ⟨content, name, rfl, hname, rfl, rfl⟩
  · exact hsame _
  · exact hstart _
  · rw [List.cons_append, Event.ofToken, if_pos hname]

/-- A token leaves an open tag open, or is the end tag that closes it. -/
theorem ofToken_cases {inner outer : List (List UInt8)} {name : List UInt8}
    {token : Token} {event : Option Event}
    (h : Event.ofToken (inner ++ name :: outer) token = .ok (event, opened')) :
    (∃ inner', opened' = inner' ++ name :: outer ∧
        Event.ofToken inner token = .ok (event, inner')) ∨
      inner = [] ∧ opened' = outer ∧ event = some .close ∧
        ∃ content, token = .endTag content ∧ endName content = name := by
  rcases ofToken_eq_ok h with ⟨rfl, hsame, -⟩ | ⟨tag, rfl, rfl, hstart⟩ |
    ⟨content, closed, rfl, hname, rfl, hopened⟩
  · exact .inl ⟨inner, rfl, hsame inner⟩
  · exact .inl ⟨tag.name :: inner, rfl, hstart inner⟩
  · cases inner with
    | nil =>
        obtain ⟨rfl, rfl⟩ := List.cons.inj hopened
        exact .inr ⟨rfl, rfl, rfl, content, rfl, hname⟩
    | cons name' inner =>
        obtain ⟨rfl, rfl⟩ := List.cons.inj hopened
        refine .inl ⟨inner, rfl, ?_⟩
        rw [Event.ofToken, if_pos hname]

namespace Stretch

variable {bytes : List UInt8} {events : List Event}

/-- A stretch can be read inside of any open tags. -/
theorem inside (h : Stretch opened bytes events opened') (outer : List (List UInt8)) :
    Stretch (opened ++ outer) bytes events (opened' ++ outer) := by
  induction h with
  | nil => exact .nil
  | markup plain complete taken _ ih =>
      exact .markup plain complete (ofToken_append taken outer) ih

/-- A stretch leaves an open tag open all the while, or has the end tag that
closes it in it: the stretch before that one closes what it opens. -/
theorem leaves_or_closes {inner outer : List (List UInt8)} {name : List UInt8}
    (h : Stretch (inner ++ name :: outer) bytes events opened') :
    (∃ inner', opened' = inner' ++ name :: outer ∧ Stretch inner bytes events inner') ∨
      ∃ before text content after events₁ events₂,
        bytes = before ++ (text ++ 0x3C :: 0x2F :: (content ++ 0x3E :: after)) ∧
        events = events₁ ++ (textEvents text ++ .close :: events₂) ∧
        0x3C ∉ text ∧ endName content = name ∧
        Stretch inner before events₁ [] ∧ Stretch outer after events₂ opened' := by
  generalize hopened : inner ++ name :: outer = opened at h
  induction h generalizing inner with
  | nil => exact .inl ⟨inner, hopened.symm, .nil⟩
  | @markup opened mid opened' text m bytes token event events plain complete taken
      rest ih =>
      subst hopened
      rcases ofToken_cases taken with
        ⟨inner', rfl, htaken⟩ | ⟨rfl, rfl, rfl, content, rfl, hname⟩
      · rcases ih rfl with ⟨inner'', rfl, hrest⟩ |
          ⟨before, text', content, after, events₁, events₂, rfl, rfl, hplain, hname,
            hbefore, hafter⟩
        · exact .inl ⟨inner'', rfl, .markup plain complete htaken hrest⟩
        · refine .inr ⟨text ++ 0x3C :: (m ++ before), text', content, after,
            textEvents text ++ (event.toList ++ events₁), events₂, ?_, ?_, hplain, hname,
            .markup plain complete htaken hbefore, hafter⟩
          · simp only [List.append_assoc, List.cons_append]
          · simp only [List.append_assoc]
      · cases complete with
        | endTag closed =>
            refine .inr ⟨[], text, content, bytes, [], events, ?_, by simp, plain, hname,
              .nil, rest⟩
            simp only [List.nil_append, List.append_assoc, List.cons_append]

end Stretch

/-- No complete markup can be read from the beginning of `bytes`. -/
def Stuck (opened : List (List UInt8)) (bytes : List UInt8) : Prop :=
  ∀ text m rest token, bytes = text ++ 0x3C :: (m ++ rest) → 0x3C ∉ text →
    Token.Complete token m → ∃ e, Event.ofToken opened token = .error e

/-- Every document is a stretch and a rest from which no more can be read
that is complete. -/
theorem exists_stretch_append (opened : List (List UInt8)) (bytes : List UInt8) :
    ∃ read rest events opened', bytes = read ++ rest ∧
      Stretch opened read events opened' ∧ Stuck opened' rest := by
  induction hn : bytes.length using Nat.strongRecOn generalizing opened bytes with
  | _ n ih =>
      by_cases hstuck : Stuck opened bytes
      · exact ⟨[], bytes, [], opened, rfl, .nil, hstuck⟩
      · simp only [Stuck, not_forall, not_exists] at hstuck
        obtain ⟨text, m, more, token, rfl, plain, complete, hok⟩ := hstuck
        cases taken : Event.ofToken opened token with
        | error e => exact absurd taken (hok e)
        | ok p =>
            have hlt : more.length < n := by
              subst hn
              simp only [List.length_append, List.length_cons]
              omega
            obtain ⟨read, rest, events, opened', rfl, hread, hrest⟩ :=
              ih more.length hlt p.2 more rfl
            refine ⟨_, rest, _, opened', ?_, .markup plain complete taken hread, hrest⟩
            simp only [List.append_assoc, List.cons_append]

/-- A rest without complete markup is text, then at most one token that the end
of the document cuts, unless there is a fault in it. -/
theorem Stuck.eventsFrom_cases {bytes : List UInt8} (h : Stuck opened bytes) :
    (∃ e, (eventsFrom none opened bytes).2 = some e) ∨
      ∃ text token event opened', 0x3C ∉ text ∧
        Event.ofToken opened token = .ok (event, opened') ∧
        eventsFrom none opened bytes = (textEvents text ++ event.toList, none) ∧
        ∀ content, token = .endTag content →
          bytes = text ++ 0x3C :: 0x2F :: content ∧ 0x3E ∉ content := by
  by_cases hplain : 0x3C ∈ bytes
  · obtain ⟨text, body, rfl, plain⟩ := List.eq_append_cons_of_mem hplain
    rw [eventsFrom_text_append plain]
    rcases eventsFrom_bracket opened body with ⟨e, he⟩ | ⟨-, hend⟩ |
      ⟨token, rest, event, opened', hmarkup, taken, hread⟩
    · exact .inl ⟨e, he⟩
    · refine .inr ⟨text, .skipped, none, opened, plain, rfl, ?_, by simp⟩
      rw [hend]
      rfl
    · rcases Token.complete_or_cut_of_markup _ hmarkup with
        ⟨m, rfl, complete⟩ | ⟨rfl, hcut⟩
      · obtain ⟨e, he⟩ := h text m rest token rfl plain complete
        rw [taken] at he
        cases he
      · have hend : eventsFrom none opened' [] = ([], none) := eventsFrom_of_end rfl
        refine .inr ⟨text, token, event, opened', plain, taken, ?_, ?_⟩
        · simp only [hread, hend, List.append_nil]
        · rintro content rfl
          cases hcut with
          | endTag unclosed => exact ⟨rfl, unclosed⟩
  · refine .inr ⟨bytes, .skipped, none, opened, hplain, rfl, ?_, by simp⟩
    simpa using eventsFrom_text hplain

/-! ## Elements -/

/-- The bytes of an end tag. -/
def endTagOf (name : List UInt8) : List UInt8 := 0x3C :: 0x2F :: (name ++ [0x3E])

/-- The content of a start tag with a name that an end tag can have. -/
structure Opens (content name : List UInt8) : Prop where
  complete : Token.Complete (.tag content) (content ++ [0x3E])
  unclosed : content.getLast? ≠ some 0x2F
  name_eq : (Tag.ofContent content).name = name
  no_bracket : 0x3E ∉ name
  no_blank : endName name = name

/-- The bytes of an element with a start tag and an end tag. -/
def elementOf (content body name : List UInt8) : List UInt8 :=
  0x3C :: (content ++ 0x3E :: (body ++ endTagOf name))

/-- Text and the end tag of the one open tag. -/
theorem Stretch.text_endTag {content text name : List UInt8} (opens : Opens content name)
    (plain : 0x3C ∉ text) :
    Stretch [name] (text ++ endTagOf name) (textEvents text ++ [.close]) [] := by
  have taken : Event.ofToken [name] (.endTag name) = .ok (some .close, []) := by
    rw [Event.ofToken, if_pos opens.no_blank]
  have hread := Stretch.markup plain (.endTag opens.no_bracket) taken .nil
  rwa [List.append_nil] at hread

/-- An element closes what it opens, if what is in it does. -/
theorem Stretch.element {content read text name : List UInt8} {events : List Event}
    (opens : Opens content name) (h : Stretch [] read events []) (plain : 0x3C ∉ text) :
    Stretch [] (elementOf content (read ++ text) name)
      (.start (Tag.ofContent content) :: (events ++ (textEvents text ++ [.close]))) [] := by
  have hstart : Event.ofToken [] (.tag content) =
      .ok (some (.start (Tag.ofContent content)), [name]) := by
    simp only [Event.ofToken, if_neg opens.unclosed, opens.name_eq]
  have hbody : Stretch [name] read events [name] := h.inside [name]
  have hend := hbody.append (Stretch.text_endTag opens plain)
  have hempty : (0x3C : UInt8) ∉ [] := by simp
  have hwhole := Stretch.markup hempty opens.complete hstart hend
  have hbytes : [] ++ 0x3C :: (content ++ [0x3E] ++ (read ++ (text ++ endTagOf name))) =
      elementOf content (read ++ text) name := by
    simp [elementOf]
  rwa [hbytes] at hwhole

/-- The bytes close what they open, and only that, and end in complete markup
or in text. -/
def Balanced (bytes : List UInt8) : Prop :=
  ∃ read text events, bytes = read ++ text ∧ Stretch [] read events [] ∧ 0x3C ∉ text

end GroovyFindings.Xml
