import GroovyFindings.Xml.Event

/-!
# Complete markup

Tags, end tags and instructions also end where the document ends.  This file
separates those that their own closing bracket ends from those that the end
of the document cuts, and shows that the former are read alike whatever
follows them.

Everything here is about the bytes behind an opening bracket.

## Main definitions

* `Complete` — the grammar of markup that its own bracket ends.
* `Cut` — markup that the document ends inside of and that is read
  nevertheless.

## Main results

* `markup_complete` — complete markup is read in every context.
* `complete_or_cut_of_markup` — nothing else is read, but for what is cut.
* `exists_markup_endTag` — an end tag is always read.
-/

namespace GroovyFindings.Xml.Token

/-! ## Quotes in a tag -/

/-- The quote that is open behind the byte `b`. -/
def quoteBehind (quote : Option UInt8) (b : UInt8) : Option UInt8 :=
  match quote with
  | some q => if b = q then none else some q
  | none => if b = 0x22 ∨ b = 0x27 then some b else none

/-- The quote that is open behind `content`, if no closing bracket stands
outside quotes in it. -/
def quoteAfter (quote : Option UInt8) : (content : List UInt8) → Option (Option UInt8)
  | [] => some quote
  | b :: rest =>
      if quote = none ∧ b = 0x3E then none
      else quoteAfter (quoteBehind quote b) rest

theorem quoteAfter_append (quote : Option UInt8) (xs ys : List UInt8) :
    quoteAfter quote (xs ++ ys) =
      (quoteAfter quote xs).bind fun q => quoteAfter q ys := by
  induction xs generalizing quote with
  | nil => rfl
  | cons b xs ih =>
      simp only [List.cons_append, quoteAfter]
      split
      · rfl
      · exact ih _

private theorem splitTag_cons (quote : Option UInt8) (b : UInt8) (rest : List UInt8) :
    splitTag quote (b :: rest) =
      if quote = none ∧ b = 0x3E then ([], some rest)
      else (b :: (splitTag (quoteBehind quote b) rest).1,
        (splitTag (quoteBehind quote b) rest).2) := by
  rfl

/-- A tag is split at the first bracket outside quotes. -/
theorem splitTag_append {quote : Option UInt8} {content : List UInt8}
    (h : quoteAfter quote content = some none) (rest : List UInt8) :
    splitTag quote (content ++ 0x3E :: rest) = (content, some rest) := by
  induction content generalizing quote with
  | nil =>
      obtain rfl : quote = none := by simpa [quoteAfter] using h
      simp [splitTag]
  | cons b content ih =>
      simp only [quoteAfter] at h
      split at h
      · simp at h
      · next hb =>
          rw [List.cons_append, splitTag_cons, if_neg hb, ih h]

theorem eq_append_of_splitTag {quote : Option UInt8} {bytes content rest : List UInt8}
    (h : splitTag quote bytes = (content, some rest)) :
    bytes = content ++ 0x3E :: rest ∧ quoteAfter quote content = some none := by
  induction bytes generalizing quote content with
  | nil => simp [splitTag] at h
  | cons b bytes ih =>
      rw [splitTag_cons] at h
      split at h
      · next hb =>
          obtain ⟨rfl, rfl⟩ := by simpa using h
          simp [quoteAfter, hb.1, hb.2]
      · next hb =>
          obtain ⟨hcontent, hrest⟩ := Prod.mk.inj h
          obtain ⟨hbytes, hquote⟩ := ih (Prod.ext rfl hrest)
          subst hcontent
          refine ⟨by rw [List.cons_append, ← hbytes], ?_⟩
          rw [quoteAfter, if_neg hb]
          exact hquote

theorem eq_of_splitTag_none {quote : Option UInt8} {bytes content : List UInt8}
    (h : splitTag quote bytes = (content, none)) : content = bytes := by
  induction bytes generalizing quote content with
  | nil => simpa [splitTag, eq_comm] using h
  | cons b bytes ih =>
      rw [splitTag_cons] at h
      split at h
      · simp at h
      · obtain ⟨hcontent, hrest⟩ := Prod.mk.inj h
        have hrec : (splitTag (quoteBehind quote b) bytes).1 = bytes :=
          ih (Prod.ext rfl hrest)
        rw [← hcontent, hrec]

/-! ## What a condition on the bytes read so far ends -/

/-- Behind the bytes `read`, the last one first, `content` is the shortest
sequence of which `done` holds and which a closing bracket follows. -/
def EndsFirst (done : List UInt8 → Bool) (read : List UInt8) :
    (content : List UInt8) → Prop
  | [] => done read = true
  | b :: rest =>
      ¬(b = 0x3E ∧ done read = true) ∧ EndsFirst done (b :: read) rest

theorem EndsFirst.done {done : List UInt8 → Bool} {read content : List UInt8}
    (h : EndsFirst done read content) : done (content.reverse ++ read) = true := by
  induction content generalizing read with
  | nil => exact h
  | cons b content ih => simpa using ih h.2

theorem splitBang_append {done : List UInt8 → Bool} {read content : List UInt8}
    (h : EndsFirst done read content) (rest : List UInt8) :
    splitBang done read (content ++ 0x3E :: rest) =
      some (read.reverse ++ content, rest) := by
  induction content generalizing read with
  | nil =>
      have hdone : done read = true := h
      simp [splitBang, hdone]
  | cons b content ih =>
      rw [List.cons_append, splitBang, if_neg h.1, ih h.2]
      simp

theorem eq_append_of_splitBang {done : List UInt8 → Bool}
    {read bytes whole rest : List UInt8}
    (h : splitBang done read bytes = some (whole, rest)) :
    ∃ content, whole = read.reverse ++ content ∧ bytes = content ++ 0x3E :: rest ∧
      EndsFirst done read content := by
  induction bytes generalizing read with
  | nil => simp [splitBang] at h
  | cons b bytes ih =>
      rw [splitBang] at h
      split at h
      · next hb =>
          obtain ⟨rfl, rfl⟩ := by simpa using h
          exact ⟨[], by simp, by simp [hb.1], hb.2⟩
      · next hb =>
          obtain ⟨content, rfl, rfl, hends⟩ := ih h
          exact ⟨b :: content, by simp, rfl, hb, hends⟩

/-! ## The grammar -/

/-- The bytes behind an opening bracket, up to and including the closing
bracket that ends the markup they spell. -/
inductive Complete : Token → List UInt8 → Prop where
  | tag {content : List UInt8} (name : content.head? ∉ [some 0x21, some 0x2F, some 0x3F])
      (closed : quoteAfter none content = some none) :
      Complete (.tag content) (content ++ [0x3E])
  | endTag {content : List UInt8} (closed : 0x3E ∉ content) :
      Complete (.endTag content) (0x2F :: (content ++ [0x3E]))
  | instruction {content : List UInt8} (closed : 0x3E ∉ content)
      (marks : ofInstruction content = .ok .skipped) :
      Complete .skipped (0x3F :: (content ++ [0x3E]))
  | comment {content : List UInt8} (first : EndsFirst commentDone [] (0x2D :: content))
      (marks : ofComment (0x2D :: content) = .ok .skipped) :
      Complete .skipped (0x21 :: 0x2D :: (content ++ [0x3E]))
  | cdata {content raw : List UInt8} (first : EndsFirst cdataDone [] (0x5B :: content))
      (marks : ofCdata (0x5B :: content) = .ok (.cdata raw)) :
      Complete (.cdata raw) (0x21 :: 0x5B :: (content ++ [0x3E]))
  | doctype {b : UInt8} {content : List UInt8} (letter : b = 0x44 ∨ b = 0x64)
      (first : EndsFirst doctypeDone [] (b :: content))
      (marks : ofDoctype (b :: content) = .ok .skipped) :
      Complete .skipped (0x21 :: b :: (content ++ [0x3E]))

/-- The bytes behind an opening bracket where the document ends inside of
markup and the markup is read nevertheless. -/
inductive Cut : Token → List UInt8 → Prop where
  | tag {content : List UInt8} (nonempty : content ≠ []) : Cut (.tag content) content
  | endTag {content : List UInt8} (unclosed : 0x3E ∉ content) :
      Cut (.endTag content) (0x2F :: content)
  | instruction {content : List UInt8} (unclosed : 0x3E ∉ content) :
      Cut .skipped (0x3F :: content)

theorem ofComment_eq_ok {content : List UInt8} {token : Token}
    (h : ofComment content = .ok token) : token = .skipped := by
  unfold ofComment at h
  split at h
  · exact (Except.ok.inj h).symm
  · simp at h

theorem ofCdata_eq_ok {content : List UInt8} {token : Token}
    (h : ofCdata content = .ok token) :
    token = .cdata ((content.drop 7).dropLast.dropLast) := by
  unfold ofCdata at h
  split at h
  · exact (Except.ok.inj h).symm
  · simp at h

theorem ofDoctype_eq_ok {content : List UInt8} {token : Token}
    (h : ofDoctype content = .ok token) : token = .skipped := by
  unfold ofDoctype at h
  split at h
  · split at h
    · simp at h
    · exact (Except.ok.inj h).symm
  · simp at h

theorem ofInstruction_eq_ok {content : List UInt8} {token : Token}
    (h : ofInstruction content = .ok token) :
    token = .skipped ∧ content.getLast? = some 0x3F := by
  unfold ofInstruction at h
  split at h
  · next hmarks => exact ⟨(Except.ok.inj h).symm, hmarks.2⟩
  · simp at h

/-! ## Reading the grammar -/

theorem upToBracket_append (input : Input) {content : List UInt8}
    (h : 0x3E ∉ content) (rest : List UInt8) :
    upToBracket input (content ++ 0x3E :: rest) = .ok (content, rest) := by
  have hall : ∀ b ∈ content, (b != 0x3E) = true := by
    intro b hb
    simp only [bne_iff_ne, ne_eq]
    rintro rfl
    exact h hb
  unfold upToBracket
  rw [List.dropWhile_append_of_pos hall, List.takeWhile_append_of_pos hall]
  simp

private theorem bangWith_append (input : Input) (construct : Construct)
    {done : List UInt8 → Bool} {ofContent : List UInt8 → Except Error Token}
    {content : List UInt8} {token : Token} (first : EndsFirst done [] content)
    (marks : ofContent content = .ok token) (rest : List UInt8) :
    bangWith input construct done ofContent (content ++ 0x3E :: rest) =
      .ok (token, rest) := by
  simp [bangWith, splitBang_append first, marks]

/-- Complete markup is read in every context. -/
theorem markup_complete {token : Token} {bytes : List UInt8}
    (h : Complete token bytes) (input : Input) (rest : List UInt8) :
    markup input (bytes ++ rest) = .ok (some (token, rest)) := by
  cases h with
  | @tag content name closed =>
      have hsplit := splitTag_append closed rest
      cases content with
      | nil => simp [markup, splitTag]
      | cons b content =>
          simp only [List.head?_cons, List.mem_cons, Option.some.injEq,
            List.not_mem_nil, or_false, not_or] at name
          simp only [List.cons_append] at hsplit
          simp [markup, name.1, name.2.1, name.2.2, hsplit]
  | endTag closed =>
      simp [markup, upToBracket_append input closed]
  | instruction closed marks =>
      simp [markup, upToBracket_append input closed, marks]
  | comment first marks =>
      have hbang := bangWith_append input .comment first marks rest
      simp only [List.cons_append] at hbang
      simp [markup, bang, hbang, Except.map]
  | cdata first marks =>
      have hbang := bangWith_append input .cdata first marks rest
      simp only [List.cons_append] at hbang
      simp [markup, bang, hbang, Except.map]
  | doctype letter first marks =>
      have hbang := bangWith_append input .doctype first marks rest
      simp only [List.cons_append] at hbang
      rcases letter with rfl | rfl <;> simp [markup, bang, hbang, Except.map]

/-! ## Nothing else is read -/

private theorem atEnd_none {α : Type} (bytes : List UInt8) (a : α) :
    Input.atEnd ⟨bytes, none⟩ a = .ok a := rfl

private theorem upToBracket_cases (whole : List UInt8) {bytes content rest : List UInt8}
    (h : upToBracket ⟨whole, none⟩ bytes = .ok (content, rest)) :
    0x3E ∉ content ∧ (bytes = content ++ 0x3E :: rest ∨ bytes = content ∧ rest = []) := by
  unfold upToBracket at h
  have hsplit : bytes.takeWhile (· != 0x3E) ++ bytes.dropWhile (· != 0x3E) = bytes :=
    List.takeWhile_append_dropWhile
  have hnot : 0x3E ∉ bytes.takeWhile (· != 0x3E) := by
    intro hmem
    have := List.all_eq_true.1 List.all_takeWhile _ hmem
    simp at this
  split at h
  · next b more heq =>
      obtain ⟨rfl, rfl⟩ := by simpa using h
      have hb : b = 0x3E := by
        have := List.head?_dropWhile_not (· != 0x3E) bytes
        rw [heq] at this
        simpa using this
      rw [heq, hb] at hsplit
      exact ⟨hnot, .inl hsplit.symm⟩
  · next heq =>
      rw [atEnd_none] at h
      obtain ⟨rfl, rfl⟩ := by simpa using h
      rw [heq, List.append_nil] at hsplit
      rw [hsplit] at hnot
      exact ⟨hnot, .inr ⟨rfl, rfl⟩⟩

/-- An end tag is read whatever follows its slash. -/
theorem exists_markup_endTag (whole bytes : List UInt8) :
    ∃ content rest, markup ⟨whole, none⟩ (0x2F :: bytes) =
      .ok (some (.endTag content, rest)) := by
  cases hup : upToBracket ⟨whole, none⟩ bytes with
  | error e =>
      unfold upToBracket at hup
      split at hup <;> cases hup
  | ok p => exact ⟨p.1, p.2, by simp [markup, hup]⟩

private theorem bangWith_cases {input : Input} {construct : Construct}
    {done : List UInt8 → Bool} {ofContent : List UInt8 → Except Error Token}
    {bytes rest : List UInt8} {token : Token}
    (h : bangWith input construct done ofContent bytes = .ok (token, rest)) :
    ∃ content, bytes = content ++ 0x3E :: rest ∧ EndsFirst done [] content ∧
      ofContent content = .ok token := by
  unfold bangWith at h
  split at h
  · next whole more heq =>
      split at h
      · next read hread =>
          obtain ⟨rfl, rfl⟩ : read = token ∧ more = rest := by simpa using h
          obtain ⟨content, rfl, hbytes, first⟩ := eq_append_of_splitBang heq
          exact ⟨_, hbytes, first, hread⟩
      · simp at h
  · split at h <;> simp at h

private theorem bang_cases {input : Input} {bytes rest : List UInt8} {token : Token}
    (h : bang input bytes = .ok (token, rest)) :
    ∃ m, bytes = m ++ rest ∧ Complete token (0x21 :: m) := by
  unfold bang at h
  split at h
  · split at h <;> simp at h
  · next b tail =>
      -- the construct's own first byte cannot be its closing bracket
      have hcons : ∀ content : List UInt8, b :: tail = content ++ 0x3E :: rest →
          b ≠ 0x3E → ∃ c, content = b :: c ∧ b :: tail = b :: (c ++ [0x3E]) ++ rest := by
        intro content heq hb
        cases content with
        | nil => exact absurd (List.cons.inj heq).1 hb
        | cons b' c =>
            obtain ⟨rfl, rfl⟩ := List.cons.inj heq
            exact ⟨c, rfl, by simp⟩
      split at h
      · next hb =>
          subst hb
          obtain ⟨content, heq, first, marks⟩ := bangWith_cases h
          obtain ⟨c, rfl, hsplit⟩ := hcons content heq (by decide)
          obtain rfl := ofCdata_eq_ok marks
          exact ⟨_, hsplit, .cdata first marks⟩
      split at h
      · next hb =>
          subst hb
          obtain ⟨content, heq, first, marks⟩ := bangWith_cases h
          obtain ⟨c, rfl, hsplit⟩ := hcons content heq (by decide)
          obtain rfl := ofComment_eq_ok marks
          exact ⟨_, hsplit, .comment first marks⟩
      split at h
      · next hb =>
          obtain ⟨content, heq, first, marks⟩ := bangWith_cases h
          obtain ⟨c, rfl, hsplit⟩ :=
            hcons content heq (by rcases hb with rfl | rfl <;> decide)
          obtain rfl := ofDoctype_eq_ok marks
          exact ⟨_, hsplit, .doctype hb first marks⟩
      · simp at h

section Cases

variable {whole tail rest : List UInt8} {token : Token}

private theorem bang_of_markup
    (h : markup ⟨whole, none⟩ (0x21 :: tail) = .ok (some (token, rest))) :
    ∃ m, 0x21 :: tail = m ++ rest ∧ Complete token m := by
  cases hbang : bang ⟨whole, none⟩ tail with
  | error e => simp [markup, hbang, Except.map] at h
  | ok p =>
      simp only [markup, if_pos, hbang, Except.map, Except.ok.injEq, Option.some.injEq] at h
      subst h
      obtain ⟨m, rfl, complete⟩ := bang_cases hbang
      exact ⟨0x21 :: m, rfl, complete⟩

private theorem endTag_of_markup
    (h : markup ⟨whole, none⟩ (0x2F :: tail) = .ok (some (token, rest))) :
    (∃ m, 0x2F :: tail = m ++ rest ∧ Complete token m) ∨
      rest = [] ∧ Cut token (0x2F :: tail) := by
  cases hup : upToBracket ⟨whole, none⟩ tail with
  | error e => simp [markup, hup] at h
  | ok p =>
      obtain ⟨content, more⟩ := p
      obtain ⟨rfl, rfl⟩ := by simpa [markup, hup] using h
      obtain ⟨hclosed, rfl | ⟨rfl, rfl⟩⟩ := upToBracket_cases whole hup
      · exact .inl ⟨_, by simp, .endTag hclosed⟩
      · exact .inr ⟨rfl, .endTag hclosed⟩

private theorem instruction_of_markup
    (h : markup ⟨whole, none⟩ (0x3F :: tail) = .ok (some (token, rest))) :
    (∃ m, 0x3F :: tail = m ++ rest ∧ Complete token m) ∨
      rest = [] ∧ Cut token (0x3F :: tail) := by
  cases hup : upToBracket ⟨whole, none⟩ tail with
  | error e => simp [markup, hup] at h
  | ok p =>
      obtain ⟨content, more⟩ := p
      cases hmarks : ofInstruction content with
      | error e => simp [markup, hup, hmarks] at h
      | ok read =>
          obtain ⟨rfl, rfl⟩ := by simpa [markup, hup, hmarks] using h
          obtain ⟨rfl, -⟩ := ofInstruction_eq_ok hmarks
          obtain ⟨hclosed, rfl | ⟨rfl, rfl⟩⟩ := upToBracket_cases whole hup
          · exact .inl ⟨_, by simp, .instruction hclosed hmarks⟩
          · exact .inr ⟨rfl, .instruction hclosed⟩

private theorem tag_of_markup {b : UInt8} (name : b ∉ [0x21, 0x2F, 0x3F])
    (h : markup ⟨whole, none⟩ (b :: tail) = .ok (some (token, rest))) :
    (∃ m, b :: tail = m ++ rest ∧ Complete token m) ∨ rest = [] ∧ Cut token (b :: tail) := by
  simp only [List.mem_cons, List.not_mem_nil, or_false, not_or] at name
  simp only [markup, if_neg name.1, if_neg name.2.1, if_neg name.2.2] at h
  split at h
  · next content more hsplit =>
      obtain ⟨rfl, rfl⟩ := by simpa using h
      obtain ⟨hbytes, closed⟩ := eq_append_of_splitTag hsplit
      refine .inl ⟨content ++ [0x3E], by simp [hbytes], .tag ?_ closed⟩
      cases content with
      | nil => simp
      | cons c content =>
          obtain ⟨rfl, -⟩ := List.cons.inj hbytes
          simp [name]
  · next content hsplit =>
      rw [atEnd_none] at h
      obtain ⟨rfl, rfl⟩ := by simpa using h
      rw [eq_of_splitTag_none hsplit]
      exact .inr ⟨rfl, .tag (by simp)⟩

/-- What is read in a document that can be read to its end is complete
markup, or is cut by the end. -/
theorem complete_or_cut_of_markup (whole : List UInt8) {bytes rest : List UInt8}
    {token : Token} (h : markup ⟨whole, none⟩ bytes = .ok (some (token, rest))) :
    (∃ m, bytes = m ++ rest ∧ Complete token m) ∨ rest = [] ∧ Cut token bytes := by
  cases bytes with
  | nil => simp [markup, atEnd_none] at h
  | cons b tail =>
      by_cases hbang : b = 0x21
      · subst hbang
        exact .inl (bang_of_markup h)
      by_cases hslash : b = 0x2F
      · subst hslash
        exact endTag_of_markup h
      by_cases hmark : b = 0x3F
      · subst hmark
        exact instruction_of_markup h
      · exact tag_of_markup (by simp [hbang, hslash, hmark]) h

/-- What begins with the first byte of other markup is not read as a tag. -/
theorem ne_tag_of_markup {b : UInt8} (other : b ∈ [0x21, 0x2F, 0x3F])
    (h : markup ⟨whole, none⟩ (b :: tail) = .ok (some (token, rest)))
    (content : List UInt8) : token ≠ .tag content := by
  rintro rfl
  simp only [List.mem_cons, List.not_mem_nil, or_false] at other
  rcases other with rfl | rfl | rfl
  · obtain ⟨m, hm, complete⟩ := bang_of_markup h
    cases complete with
    | tag name closed =>
        cases content with
        | nil => exact absurd (List.cons.inj hm).1 (by decide)
        | cons c content =>
            obtain rfl : 0x21 = c := (List.cons.inj hm).1
            simp at name
  · cases hup : upToBracket ⟨whole, none⟩ tail <;> simp [markup, hup] at h
  · cases hup : upToBracket ⟨whole, none⟩ tail with
    | error e => simp [markup, hup] at h
    | ok p =>
        cases hmarks : ofInstruction p.1 with
        | error e => simp [markup, hup, hmarks] at h
        | ok read =>
            obtain ⟨rfl, -⟩ := ofInstruction_eq_ok hmarks
            simp [markup, hup, hmarks] at h

end Cases

end GroovyFindings.Xml.Token
