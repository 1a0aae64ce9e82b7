import GroovyFindings.Proofs.Text.Blank
import GroovyFindings.Proofs.Xml.Stretch

/-!
# An end tag behind a rest

Behind bytes from which no complete markup can be read stands an end tag.
Either the bytes are text, and the end tag is read as one; or an opening
bracket in them begins something that the end tag is swallowed by.  Most
markup cannot swallow an end tag, since the bytes before its closing bracket
are not those of a name; what can is a tag, which then opens an element, and
an end tag, whose name then has a bracket in it.

## Main definitions

* `Ordinary` — names that do not look like the end of other markup.

## Main results

* `Token.Complete.tag_or_endTag` — what can swallow an end tag.
* `Stuck.eventsFrom_endTag` — what is read of the bytes and the end tag.
-/

namespace GroovyFindings.Xml

/-- A name without brackets, whose last byte neither stands before the closing
bracket of other markup nor is a blank. -/
structure Ordinary (name : List UInt8) : Prop where
  unopened : 0x3C ∉ name
  unclosed : 0x3E ∉ name
  last : ∃ b, name.getLast? = some b ∧ b ∉ [0x2F, 0x3F, 0x2D, 0x5D] ∧ isEndSpace b = false

namespace Token

/-! ## Document types -/

/-- Inside of a document type no more brackets are closed than opened. -/
theorem EndsFirst.count_le {read content before after : List UInt8}
    (h : EndsFirst doctypeDone read content) (hsplit : content = before ++ after)
    (hread : read.count 0x3E ≤ read.count 0x3C) :
    (before.reverse ++ read).count 0x3E ≤ (before.reverse ++ read).count 0x3C := by
  induction before generalizing read content with
  | nil => exact hread
  | cons b before ih =>
      subst hsplit
      have hnot : ¬(b = 0x3E ∧ doctypeDone read = true) := h.1
      have hstep : (b :: read).count 0x3E ≤ (b :: read).count 0x3C := by
        by_cases hclose : b = 0x3E
        · have hne : read.count 0x3C ≠ read.count 0x3E := by
            intro heq
            exact hnot ⟨hclose, by simpa [doctypeDone] using heq⟩
          subst hclose
          rw [List.count_cons_self, List.count_cons_of_ne (by decide)]
          omega
        · rw [List.count_cons_of_ne hclose]
          exact hread.trans (List.count_le_count_cons)
      have htail := ih h.2 rfl hstep
      simpa only [List.reverse_cons, List.append_assoc, List.singleton_append] using htail

/-- A document type does not end in an end tag. -/
theorem not_endsFirst_doctype {before after : List UInt8} (hopen : 0x3C ∉ after)
    (hclose : 0x3E ∉ after) : ¬EndsFirst doctypeDone [] (before ++ 0x3C :: after) := by
  intro h
  have hle := h.count_le rfl (Nat.le_refl _)
  have hdone := h.done
  simp only [doctypeDone, List.append_nil, List.count_reverse, beq_iff_eq,
    List.count_append, List.count_cons_self, List.count_eq_zero.2 hopen,
    List.count_cons_of_ne (show (0x3C : UInt8) ≠ 0x3E by decide),
    List.count_eq_zero.2 hclose] at hle hdone
  omega

/-! ## What can swallow an end tag -/

private theorem getLast?_of_done {a b : UInt8} {content : List UInt8}
    (h : [a, b].isPrefixOf content.reverse = true) : content.getLast? = some a := by
  obtain ⟨rest, hrest⟩ := List.isPrefixOf_iff_prefix.1 h
  rw [← List.head?_reverse, ← hrest]
  rfl

/-- What stands before the closing bracket of markup. -/
theorem Complete.before_bracket {token : Token} {m : List UInt8}
    (h : Complete token m) :
    ∃ x, m = x ++ [0x3E] ∧
      (token = .tag x ∨
        (∃ content, token = .endTag content ∧ x = 0x2F :: content) ∨
        (∃ b ∈ [0x3F, 0x2D, 0x5D], x.getLast? = some b) ∨
        ∃ content, content.head? ≠ some 0x3C ∧ x = 0x21 :: content ∧
          EndsFirst doctypeDone [] content) := by
  cases h with
  | tag name closed => exact ⟨_, rfl, .inl rfl⟩
  | endTag closed => exact ⟨_, rfl, .inr (.inl ⟨_, rfl, rfl⟩)⟩
  | @instruction content closed marks =>
      have hlast := (ofInstruction_eq_ok marks).2
      refine ⟨0x3F :: content, rfl, .inr (.inr (.inl ⟨0x3F, by simp, ?_⟩))⟩
      simp [List.getLast?_cons, hlast]
  | @comment content first marks =>
      have hdone := first.done
      simp only [commentDone, List.append_nil, Bool.and_eq_true] at hdone
      have hlast := getLast?_of_done hdone.2
      refine ⟨0x21 :: 0x2D :: content, rfl, .inr (.inr (.inl ⟨0x2D, by simp, ?_⟩))⟩
      rw [List.getLast?_cons, hlast]
      rfl
  | @cdata content raw first marks =>
      have hdone := first.done
      simp only [cdataDone, List.append_nil] at hdone
      have hlast := getLast?_of_done hdone
      refine ⟨0x21 :: 0x5B :: content, rfl, .inr (.inr (.inl ⟨0x5D, by simp, ?_⟩))⟩
      rw [List.getLast?_cons, hlast]
      rfl
  | @doctype b content letter first marks =>
      refine ⟨_, rfl, .inr (.inr (.inr ⟨b :: content, ?_, rfl, first⟩))⟩
      rcases letter with rfl | rfl <;> simp

/-- Only a tag or an end tag ends in the bytes of an end tag. -/
theorem Complete.tag_or_endTag {token : Token} {body name : List UInt8}
    (ordinary : Ordinary name) (h : Complete token (body ++ endTagOf name)) :
    ∃ content, content.getLast? = name.getLast? ∧
      (token = .tag content ∨ token = .endTag content ∧ 0x3C ∈ content) := by
  obtain ⟨last, hlast, hmark, -⟩ := ordinary.last
  have hend : ∀ before, (before ++ 0x3C :: 0x2F :: name).getLast? = name.getLast? := by
    intro before
    simp [List.getLast?_append, List.getLast?_cons, hlast]
  obtain ⟨x, hm, hcases⟩ := h.before_bracket
  have hx : x = body ++ 0x3C :: 0x2F :: name := by
    have hassoc : body ++ endTagOf name = (body ++ 0x3C :: 0x2F :: name) ++ [0x3E] := by
      simp [endTagOf]
    exact (List.append_cancel_right (hassoc.symm.trans hm)).symm
  rcases hcases with
    rfl | ⟨content, rfl, hcontent⟩ | ⟨b, hb, hxlast⟩ | ⟨content, hhead, hcontent, first⟩
  · exact ⟨x, by rw [hx, hend], .inl rfl⟩
  · rw [hx] at hcontent
    cases body with
    | nil => exact absurd (List.cons.inj hcontent).1 (by decide)
    | cons b body =>
        obtain rfl := (List.cons.inj hcontent).2
        exact ⟨_, hend body, .inr ⟨rfl, by simp⟩⟩
  · rw [hx, hend, hlast] at hxlast
    obtain rfl := Option.some.inj hxlast
    exact absurd (List.mem_cons_of_mem 0x2F hb) hmark
  · rw [hx] at hcontent
    cases body with
    | nil => exact absurd (List.cons.inj hcontent).1 (by decide)
    | cons b body =>
        obtain rfl := (List.cons.inj hcontent).2
        have hopen : 0x3C ∉ 0x2F :: name := by simp [ordinary.unopened]
        have hclose : 0x3E ∉ 0x2F :: name := by simp [ordinary.unclosed]
        exact absurd first (not_endsFirst_doctype hopen hclose)

/-- An end tag that the end of the document cuts has no closing bracket. -/
theorem Cut.eq_tag {token : Token} {body name : List UInt8}
    (h : Cut token (body ++ endTagOf name)) : token = .tag (body ++ endTagOf name) := by
  have hclose : ∀ b content, body ++ endTagOf name = b :: content → b ≠ 0x3E →
      0x3E ∈ content := by
    intro b content heq hb
    have hmem : 0x3E ∈ body ++ endTagOf name := by simp [endTagOf]
    rw [heq] at hmem
    exact List.mem_of_ne_of_mem (Ne.symm hb) hmem
  generalize hbytes : body ++ endTagOf name = bytes at h hclose ⊢
  cases h with
  | tag nonempty => rfl
  | endTag unclosed => exact absurd (hclose _ _ rfl (by decide)) unclosed
  | instruction unclosed => exact absurd (hclose _ _ rfl (by decide)) unclosed

/-- The closing bracket of an end tag is its last byte. -/
private theorem eq_nil_of_endTagOf {name before after : List UInt8}
    (ordinary : Ordinary name) (h : endTagOf name = before ++ 0x3E :: after) :
    after = [] := by
  rcases List.eq_nil_or_concat after with hnil | ⟨init, last, rfl⟩
  · exact hnil
  · exfalso
    have hinit : 0x3C :: 0x2F :: name = before ++ 0x3E :: init := by
      have hassoc : (0x3C :: 0x2F :: name) ++ [0x3E] = (before ++ 0x3E :: init) ++ [last] := by
        simpa [endTagOf] using h
      exact (List.append_inj' hassoc rfl).1
    have hmem : 0x3E ∈ 0x3C :: 0x2F :: name := by
      rw [hinit]
      simp
    simp [ordinary.unclosed] at hmem

/-- Markup that is read of bytes and an end tag behind them is in the bytes,
or swallows the end tag and is a start tag or an end tag. -/
theorem markup_endTagOf (whole : List UInt8) {body name more : List UInt8} {token : Token}
    (ordinary : Ordinary name)
    (h : markup ⟨whole, none⟩ (body ++ endTagOf name) = .ok (some (token, more))) :
    (∃ m tail, body = m ++ tail ∧ Complete token m) ∨
      more = [] ∧ ∃ content, token = .tag content ∧ content.getLast? ≠ some 0x2F ∨
        token = .endTag content ∧ 0x3C ∈ content ∧ endName content = content := by
  obtain ⟨last, hlast, hmark, hspace⟩ := ordinary.last
  rcases complete_or_cut_of_markup whole h with ⟨m, hsplit, complete⟩ | ⟨rfl, cut⟩
  · rcases List.append_eq_append_iff.1 hsplit with
      ⟨taken, rfl, hend⟩ | ⟨tail, rfl, -⟩
    · by_cases htaken : taken = []
      · subst htaken
        rw [List.append_nil] at complete
        exact .inl ⟨body, [], (List.append_nil body).symm, complete⟩
      · right
        obtain ⟨x, hx, -⟩ := complete.before_bracket
        obtain ⟨init, rfl⟩ : ∃ init, taken = init ++ [0x3E] := by
          apply List.getLast?_eq_some_iff.1
          have hlastOf := congrArg List.getLast? hx
          rwa [List.getLast?_append, List.getLast?_eq_some_getLast htaken, Option.some_or,
            ← List.getLast?_eq_some_getLast htaken, List.getLast?_concat] at hlastOf
        rw [List.append_assoc] at hend
        obtain rfl := eq_nil_of_endTagOf ordinary hend
        rw [List.append_nil] at hend
        rw [← hend] at complete
        obtain ⟨content, hcontent, rfl | ⟨rfl, hopen⟩⟩ := complete.tag_or_endTag ordinary
        · refine ⟨rfl, content, .inl ⟨rfl, ?_⟩⟩
          rw [hcontent, hlast]
          rintro heq
          obtain rfl := Option.some.inj heq
          simp at hmark
        · refine ⟨rfl, content, .inr ⟨rfl, hopen, ?_⟩⟩
          have hself : Text.dropEndWhile isEndSpace content = content := by
            apply Text.dropEndWhile_eq_self
            intro b hb
            rw [hcontent, hlast] at hb
            exact Option.some.inj hb ▸ hspace
          unfold endName
          rw [hself, ite_self]
    · exact .inl ⟨m, tail, rfl, complete⟩
  · refine .inr ⟨rfl, _, .inl ⟨cut.eq_tag, ?_⟩⟩
    simp [endTagOf, List.getLast?_append, List.getLast?_cons]

theorem eq_nil_of_markup {input : Input} {bytes : List UInt8}
    (h : markup input bytes = .ok none) : bytes = [] := by
  cases bytes with
  | nil => rfl
  | cons b rest =>
      exfalso
      simp only [markup] at h
      split at h
      · cases hbang : bang input rest <;> simp [hbang, Except.map] at h
      split at h
      · split at h <;> simp at h
      split at h
      · split at h
        · split at h <;> simp at h
        · simp at h
      · split at h
        · simp at h
        · unfold Input.atEnd at h
          split at h <;> simp at h

end Token

/-! ## What is read -/

/-- Only the end tag of the one open tag leaves no tag open. -/
theorem eq_singleton_of_endTag {opened : List (List UInt8)} {content : List UInt8}
    {event : Option Event} (h : Event.ofToken opened (.endTag content) = .ok (event, [])) :
    opened = [endName content] := by
  cases opened with
  | nil => simp [Event.ofToken] at h
  | cons name outer =>
      simp only [Event.ofToken] at h
      split at h
      · next hname =>
          obtain ⟨-, rfl⟩ := by simpa using h
          rw [hname]
      · simp at h

/-- Behind text the end tag is read as one. -/
private theorem eventsFrom_text_endTag {opened : List (List UInt8)} {text name : List UInt8}
    (plain : 0x3C ∉ text) (ordinary : Ordinary name) :
    (∃ e, (eventsFrom none opened (text ++ endTagOf name)).2 = some e) ∨
      ∃ event opened', Event.ofToken opened (.endTag name) = .ok (event, opened') ∧
        eventsFrom none opened (text ++ endTagOf name) =
          (textEvents text ++ event.toList, none) := by
  have complete : Token.Complete (.endTag name) (0x2F :: (name ++ [0x3E])) :=
    .endTag ordinary.unclosed
  have hmarkup := Token.markup_complete complete ⟨0x3C :: 0x2F :: (name ++ [0x3E]), none⟩ []
  rw [List.append_nil] at hmarkup
  rw [endTagOf, eventsFrom_text_append plain]
  rcases eventsFrom_bracket opened (0x2F :: (name ++ [0x3E])) with ⟨e, he⟩ | ⟨hnone, -⟩ |
    ⟨token, rest, event, opened', hsome, taken, hread⟩
  · exact .inl ⟨e, he⟩
  · rw [hmarkup] at hnone
    cases hnone
  · rw [hmarkup] at hsome
    obtain ⟨rfl, rfl⟩ := by simpa using hsome
    have hend : eventsFrom none opened' [] = ([], none) := eventsFrom_of_end rfl
    refine .inr ⟨event, opened', taken, ?_⟩
    simp only [hread, hend, List.append_nil]

/-- Markup that cannot be completed swallows the end tag, if it can be read at
all.  It opens an element, or it closes one whose name has a bracket in it. -/
private theorem Stuck.eventsFrom_swallowed {opened : List (List UInt8)}
    {text rest name : List UInt8} (stuck : Stuck opened (text ++ 0x3C :: rest))
    (plain : 0x3C ∉ text) (ordinary : Ordinary name) :
    (∃ e, (eventsFrom none opened (text ++ 0x3C :: (rest ++ endTagOf name))).2 = some e) ∨
      ∃ token event opened', Event.ofToken opened token = .ok (event, opened') ∧
        eventsFrom none opened (text ++ 0x3C :: (rest ++ endTagOf name)) =
          (textEvents text ++ event.toList, none) ∧
        (opened' = [] → ∃ other, opened = [other] ∧ 0x3C ∈ other) := by
  rw [eventsFrom_text_append plain]
  rcases eventsFrom_bracket opened (rest ++ endTagOf name) with ⟨e, he⟩ | ⟨hnone, -⟩ |
    ⟨token, more, event, opened', hmarkup, taken, hread⟩
  · exact .inl ⟨e, he⟩
  · have hnil := Token.eq_nil_of_markup hnone
    simp [endTagOf] at hnil
  · have hend : eventsFrom none opened' [] = ([], none) := eventsFrom_of_end rfl
    rcases Token.markup_endTagOf _ ordinary hmarkup with ⟨m, tail, rfl, complete⟩ |
      ⟨rfl, content, ⟨rfl, hslash⟩ | ⟨rfl, hmem, hname⟩⟩
    · obtain ⟨e, he⟩ := stuck text m tail token rfl plain complete
      rw [taken] at he
      cases he
    · refine .inr ⟨.tag content, event, opened', taken, ?_, ?_⟩
      · simp only [hread, hend, List.append_nil]
      · rintro rfl
        simp [Event.ofToken, hslash] at taken
    · refine .inr ⟨.endTag content, event, opened', taken, ?_, ?_⟩
      · simp only [hread, hend, List.append_nil]
      · rintro rfl
        refine ⟨endName content, eq_singleton_of_endTag taken, ?_⟩
        rw [hname]
        exact hmem

/-- Either there is a fault, or one token is read behind text.  If that leaves
no tag open then one was open, and the bytes are text, or else the name of
that tag has a bracket in it. -/
theorem Stuck.eventsFrom_endTag {opened : List (List UInt8)} {bytes name : List UInt8}
    (stuck : Stuck opened bytes) (ordinary : Ordinary name) :
    (∃ e, (eventsFrom none opened (bytes ++ endTagOf name)).2 = some e) ∨
      ∃ text token event opened', Event.ofToken opened token = .ok (event, opened') ∧
        eventsFrom none opened (bytes ++ endTagOf name) =
          (textEvents text ++ event.toList, none) ∧
        (opened' = [] → ∃ other, opened = [other] ∧ (0x3C ∉ bytes ∨ 0x3C ∈ other)) := by
  by_cases hopen : 0x3C ∈ bytes
  · obtain ⟨text, rest, rfl, plain⟩ := List.eq_append_cons_of_mem hopen
    rw [List.append_assoc, List.cons_append]
    rcases stuck.eventsFrom_swallowed plain ordinary with he |
      ⟨token, event, opened', taken, hread, hcloses⟩
    · exact .inl he
    · refine .inr ⟨text, token, event, opened', taken, hread, ?_⟩
      intro hnil
      obtain ⟨other, hother, hmem⟩ := hcloses hnil
      exact ⟨other, hother, .inr hmem⟩
  · rcases eventsFrom_text_endTag hopen ordinary with he | ⟨event, opened', taken, hread⟩
    · exact .inl he
    · refine .inr ⟨bytes, .endTag name, event, opened', taken, hread, ?_⟩
      rintro rfl
      exact ⟨_, eq_singleton_of_endTag taken, .inl hopen⟩

end GroovyFindings.Xml
