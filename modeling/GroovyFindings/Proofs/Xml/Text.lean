import GroovyFindings.Proofs.Text.Blank
import GroovyFindings.Proofs.Text.Utf8
import GroovyFindings.Proofs.Xml.Stretch
import Mathlib.Data.List.Basic

/-!
# Text in a document

Text is read piece by piece: what it says does not depend on what stands
around it, blanks at its ends do not matter to whether it can be read, and
two texts that can be read can be read as one.

## Main definitions

* `inkOf` — a text without the blanks at its ends.
* `Readable` — text between two pieces of markup that can be read.

## Main results

* `textOf_append` — two pieces of text are read one after the other.
* `textEvents_eq` — of a text, what remains without the blanks at its ends is yielded.
* `Readable.append` — where two texts meet, nothing fails.
-/

namespace GroovyFindings.Xml

/-! ## References -/

namespace Reference

/-- Where a reference stands makes no difference to what it stands for. -/
theorem resolve_eq_ok {start stop : Nat} {name : List Char} {c : Char}
    (h : resolve start stop name = .ok c) (start' stop' : Nat) :
    resolve start' stop' name = .ok c := by
  unfold resolve at h ⊢
  split at h
  · next digits =>
      cases hcode : code digits with
      | error e => simp [hcode] at h
      | ok n =>
          simp only [hcode] at h ⊢
          split at h
          · cases h
          · next hzero =>
              rw [if_neg hzero]
              exact h
  · cases hnamed : named? name with
    | none => simp [hnamed] at h
    | some d =>
        simp only [hnamed] at h ⊢
        exact h

end Reference

/-- What text begins with that can be read. -/
theorem unescapeFrom_cons_eq_ok {total pos : Nat} {c : Char} {rest chars : List Char}
    (h : unescapeFrom total pos (c :: rest) = .ok chars) :
    (c ≠ '&' ∧ ∃ more pos', chars = c :: more ∧
        unescapeFrom total pos' rest = .ok more) ∨
      c = '&' ∧ ∃ name after d more pos', rest = name ++ ';' :: after ∧
        (∀ x ∈ name, inReference x = true) ∧
        (∀ a b, Reference.resolve a b name = .ok d) ∧ chars = d :: more ∧
        unescapeFrom total pos' after = .ok more := by
  rw [unescapeFrom] at h
  split at h
  · next hc =>
      simp only at h
      split at h
      · next after hafter =>
          split at h
          · cases h
          · next d hd =>
              split at h
              · next more hmore =>
                  have hsplit : rest.takeWhile inReference ++ ';' :: after = rest := by
                    rw [← hafter]
                    exact List.takeWhile_append_dropWhile
                  refine .inr ⟨hc, rest.takeWhile inReference, after, d, more, _,
                    hsplit.symm, ?_, Reference.resolve_eq_ok hd, (Except.ok.inj h).symm,
                    hmore⟩
                  exact List.all_eq_true.1 List.all_takeWhile
              · cases h
      · cases h
  · next hc =>
      split at h
      · next more hmore => exact .inl ⟨hc, more, _, (Except.ok.inj h).symm, hmore⟩
      · cases h

theorem unescapeFrom_cons_of_ne {c : Char} (h : c ≠ '&') (total pos : Nat)
    (rest : List Char) :
    unescapeFrom total pos (c :: rest) =
      (unescapeFrom total (pos + c.utf8Size) rest).map (c :: ·) := by
  rw [unescapeFrom, if_neg h]
  cases unescapeFrom total (pos + c.utf8Size) rest <;> rfl

/-- Two pieces of text with references are read one after the other, wherever
they stand. -/
theorem unescapeFrom_append {xs ys chars chars' : List Char} {total pos : Nat}
    (h : unescapeFrom total pos xs = .ok chars)
    (h' : ∀ t p, unescapeFrom t p ys = .ok chars') (total' pos' : Nat) :
    unescapeFrom total' pos' (xs ++ ys) = .ok (chars ++ chars') := by
  induction hn : xs.length using Nat.strongRecOn generalizing xs chars pos pos' with
  | _ n ih =>
      cases xs with
      | nil =>
          obtain rfl : chars = [] := by simpa [unescapeFrom, eq_comm] using h
          exact h' total' pos'
      | cons c rest =>
          rcases unescapeFrom_cons_eq_ok h with
            ⟨hc, more, p, rfl, hmore⟩ |
            ⟨rfl, name, after, d, more, p, rfl, hname, hd, rfl, hmore⟩
          · have hlt : rest.length < n := by
              subst hn
              simp
            rw [List.cons_append, unescapeFrom_cons_of_ne hc, ih _ hlt hmore _ rfl]
            rfl
          · have hlt : after.length < n := by
              subst hn
              simp only [List.length_cons, List.length_append]
              omega
            have hassoc : '&' :: (name ++ ';' :: after) ++ ys =
                '&' :: name ++ ';' :: (after ++ ys) := by simp
            rw [hassoc, unescapeFrom_name hname hd, ih _ hlt hmore _ rfl]
            rfl

theorem unescape_append {xs ys chars chars' : List Char} (h : unescape xs = .ok chars)
    (h' : unescape ys = .ok chars') : unescape (xs ++ ys) = .ok (chars ++ chars') := by
  have hempty : ∀ t p, unescapeFrom t p [] = .ok [] := fun t p => by rw [unescapeFrom]
  have hys : ∀ t p, unescapeFrom t p ys = .ok chars' := by
    intro t p
    have := unescapeFrom_append h' hempty t p
    simpa only [List.append_nil] using this
  exact unescapeFrom_append h hys _ _

/-! ## Raw text -/

theorem textOf_eq_ok_iff {raw : List UInt8} {chars : List Char} :
    textOf raw = .ok chars ↔
      ∃ text, Utf8.decode raw = .ok text ∧ unescape text = .ok chars := by
  unfold textOf
  cases hdecode : Utf8.decode raw with
  | error e => simp
  | ok text => cases hunescape : unescape text <;> simp [hunescape]

theorem textOf_append {xs ys : List UInt8} {chars chars' : List Char}
    (h : textOf xs = .ok chars) (h' : textOf ys = .ok chars') :
    textOf (xs ++ ys) = .ok (chars ++ chars') := by
  obtain ⟨text, hdecode, hunescape⟩ := textOf_eq_ok_iff.1 h
  obtain ⟨text', hdecode', hunescape'⟩ := textOf_eq_ok_iff.1 h'
  exact textOf_eq_ok_iff.2
    ⟨text ++ text', Utf8.decode_append hdecode hdecode',
      unescape_append hunescape hunescape'⟩

/-- Text whose special characters are escaped is read back. -/
theorem textOf_encode_escape (text : List Char) :
    textOf (Utf8.encode (escape text)) = .ok text :=
  textOf_eq_ok_iff.2 ⟨escape text, Utf8.decode_encode _, unescape_escape text⟩

/-- Blanks can be read, and are blank characters. -/
theorem exists_textOf_of_space {blanks : List UInt8} (h : ∀ b ∈ blanks, isSpace b = true) :
    ∃ chars, textOf blanks = .ok chars ∧ ∀ c ∈ chars, Text.isBlank c = true := by
  induction blanks with
  | nil => exact ⟨[], textOf_encode_escape [], by simp⟩
  | cons b blanks ih =>
      obtain ⟨chars, hchars, hblank⟩ := ih fun b' hb' => h b' (List.mem_cons_of_mem _ hb')
      have hb : ∃ c, textOf [b] = .ok [c] ∧ Text.isBlank c = true := by
        have hspace := h b List.mem_cons_self
        simp only [isSpace, Bool.or_eq_true, beq_iff_eq] at hspace
        rcases hspace with ((rfl | rfl) | rfl) | rfl
        · exact ⟨' ', textOf_encode_escape [' '], rfl⟩
        · exact ⟨'\t', textOf_encode_escape ['\t'], rfl⟩
        · exact ⟨'\r', textOf_encode_escape ['\r'], rfl⟩
        · exact ⟨'\n', textOf_encode_escape ['\n'], rfl⟩
      obtain ⟨c, hc, hcBlank⟩ := hb
      exact ⟨[c] ++ chars, textOf_append hc hchars, by simpa [hcBlank] using hblank⟩

/-! ## Blanks around text -/

/-- Nothing but blanks. -/
def Blank (bytes : List UInt8) : Prop := ∀ b ∈ bytes, isSpace b = true

/-- There are no blanks at the ends. -/
def Inked (bytes : List UInt8) : Prop :=
  (∀ b, bytes.head? = some b → isSpace b = false) ∧
    ∀ b, bytes.getLast? = some b → isSpace b = false

theorem Blank.nil : Blank [] := by simp [Blank]

theorem Blank.space : Blank [0x20] := by simp [Blank, isSpace]

theorem Blank.append {xs ys : List UInt8} (h : Blank xs) (h' : Blank ys) :
    Blank (xs ++ ys) := by
  intro b hb
  rcases List.mem_append.1 hb with hb | hb
  · exact h b hb
  · exact h' b hb

theorem Inked.append {xs ys : List UInt8} (h : Inked xs) (h' : Inked ys)
    (hxs : xs ≠ []) (hys : ys ≠ []) (between : List UInt8) :
    Inked (xs ++ between ++ ys) := by
  constructor
  · intro b hb
    apply h.1 b
    cases xs with
    | nil => exact absurd rfl hxs
    | cons x xs => exact hb
  · intro b hb
    apply h'.2 b
    rwa [List.getLast?_append, List.getLast?_eq_some_getLast hys, Option.some_or,
      ← List.getLast?_eq_some_getLast hys] at hb

/-- The blanks that a text begins with. -/
def blanksBefore (text : List UInt8) : List UInt8 := text.takeWhile isSpace

/-- A text without the blanks at its ends. -/
def inkOf (text : List UInt8) : List UInt8 :=
  Text.dropEndWhile isSpace (text.dropWhile isSpace)

/-- The blanks that a text ends with; none if it is all blanks. -/
def blanksBehind (text : List UInt8) : List UInt8 :=
  ((text.dropWhile isSpace).reverse.takeWhile isSpace).reverse

theorem blanks_ink_blanks (text : List UInt8) :
    blanksBefore text ++ inkOf text ++ blanksBehind text = text := by
  have hink : inkOf text ++ blanksBehind text = text.dropWhile isSpace := by
    rw [inkOf, blanksBehind, Text.dropEndWhile, ← List.reverse_append,
      List.takeWhile_append_dropWhile, List.reverse_reverse]
  rw [List.append_assoc, hink]
  exact List.takeWhile_append_dropWhile

theorem blank_blanksBefore (text : List UInt8) : Blank (blanksBefore text) :=
  List.all_eq_true.1 List.all_takeWhile

theorem blank_blanksBehind (text : List UInt8) : Blank (blanksBehind text) := by
  intro b hb
  exact List.all_eq_true.1 List.all_takeWhile b (List.mem_reverse.1 hb)

theorem inked_inkOf (text : List UInt8) : Inked (inkOf text) := by
  constructor
  · intro b hb
    have := List.head?_dropWhile_not isSpace text
    rw [Text.head?_dropEndWhile hb] at this
    exact this
  · intro b hb
    exact Text.dropEndWhile_getLast hb

/-- Every text is blanks, what remains of it and blanks again. -/
theorem exists_inked (text : List UInt8) :
    ∃ lead core trail, text = lead ++ core ++ trail ∧ Blank lead ∧ Inked core ∧
      Blank trail :=
  ⟨blanksBefore text, inkOf text, blanksBehind text, (blanks_ink_blanks text).symm,
    blank_blanksBefore text, inked_inkOf text, blank_blanksBehind text⟩

/-- What text yields is what remains of it without the blanks around it. -/
theorem textEvents_append {lead core trail : List UInt8} (hlead : Blank lead)
    (hcore : Inked core) (htrail : Blank trail) :
    textEvents (lead ++ core ++ trail) = if core = [] then [] else [.text core] := by
  have hskip : (lead ++ core ++ trail).dropWhile isSpace =
      (core ++ trail).dropWhile isSpace := by
    rw [List.append_assoc, List.dropWhile_append_of_pos hlead]
  unfold textEvents
  rw [hskip]
  cases core with
  | nil =>
      have hblank : trail.dropWhile isSpace = [] := by
        rw [List.dropWhile_eq_nil_iff]
        exact htrail
      simp [hblank]
  | cons b core =>
      have hb : (b :: core ++ trail).dropWhile isSpace = b :: core ++ trail :=
        Text.dropWhile_eq_self fun x hx => hcore.1 x hx
      have hcut : Text.dropEndWhile isSpace (b :: core ++ trail) = b :: core := by
        rw [Text.dropEndWhile_append_of_pos htrail, Text.dropEndWhile_eq_self hcore.2]
      rw [hb, if_neg (List.cons_ne_nil b core)]
      simp only [List.cons_append] at hcut ⊢
      rw [hcut]

theorem textEvents_eq (text : List UInt8) :
    textEvents text = if inkOf text = [] then [] else [.text (inkOf text)] := by
  have hevents := textEvents_append (blank_blanksBefore text) (inked_inkOf text)
    (blank_blanksBehind text)
  rwa [blanks_ink_blanks] at hevents

/-! ## Where two texts meet -/

/-- What text between two pieces of markup yields can be read. -/
def Readable (text : List UInt8) : Prop :=
  ∀ raw, .text raw ∈ textEvents text → ∃ chars, textOf raw = .ok chars

theorem readable_append_iff {lead core trail : List UInt8} (hlead : Blank lead)
    (hcore : Inked core) (htrail : Blank trail) :
    Readable (lead ++ core ++ trail) ↔ ∃ chars, textOf core = .ok chars := by
  unfold Readable
  rw [textEvents_append hlead hcore htrail]
  split
  · next hnil =>
      subst hnil
      simpa using ⟨[], textOf_encode_escape []⟩
  · simp

/-- Where two texts meet, nothing fails. -/
theorem Readable.append {xs ys : List UInt8} (h : Readable xs) (h' : Readable ys) :
    Readable (xs ++ ys) := by
  obtain ⟨lead, core, trail, rfl, hlead, hcore, htrail⟩ := exists_inked xs
  obtain ⟨lead', core', trail', rfl, hlead', hcore', htrail'⟩ := exists_inked ys
  obtain ⟨chars, hchars⟩ := (readable_append_iff hlead hcore htrail).1 h
  obtain ⟨chars', hchars'⟩ := (readable_append_iff hlead' hcore' htrail').1 h'
  by_cases hempty : core = []
  · subst hempty
    have hsplit : lead ++ [] ++ trail ++ (lead' ++ core' ++ trail') =
        (lead ++ trail ++ lead') ++ core' ++ trail' := by simp
    rw [hsplit, readable_append_iff ((hlead.append htrail).append hlead') hcore' htrail']
    exact ⟨chars', hchars'⟩
  by_cases hempty' : core' = []
  · subst hempty'
    have hsplit : lead ++ core ++ trail ++ (lead' ++ [] ++ trail') =
        lead ++ core ++ (trail ++ lead' ++ trail') := by simp
    rw [hsplit, readable_append_iff hlead hcore ((htrail.append hlead').append htrail')]
    exact ⟨chars, hchars⟩
  · have hsplit : lead ++ core ++ trail ++ (lead' ++ core' ++ trail') =
        lead ++ (core ++ (trail ++ lead') ++ core') ++ trail' := by simp
    have hbetween := hcore.append hcore' hempty hempty' (trail ++ lead')
    rw [hsplit, readable_append_iff hlead hbetween htrail']
    obtain ⟨blanks, hblanks, -⟩ := exists_textOf_of_space (htrail.append hlead')
    exact ⟨_, textOf_append (textOf_append hchars hblanks) hchars'⟩

/-! ## Text that was written -/

/-- The blanks of a document are blank characters. -/
theorem isBlank_of_isSpace {b : UInt8} {c : Char} (h : b ∈ String.utf8EncodeChar c)
    (hb : isSpace b = true) :
    String.utf8EncodeChar c = [b] ∧ Text.isBlank c = true := by
  simp only [isSpace, Bool.or_eq_true, beq_iff_eq] at hb
  have hlow : b.toNat ≤ 0x7F := by
    rcases hb with ((rfl | rfl) | rfl) | rfl <;> decide
  obtain ⟨hsingle, hvalue⟩ := Utf8.eq_singleton_of_mem_utf8EncodeChar h hlow
  refine ⟨hsingle, ?_⟩
  rcases hb with ((rfl | rfl) | rfl) | rfl <;> simp [Text.isBlank, hvalue]

/-- A text without blank characters at its ends. -/
theorem inked_encode {text : List Char}
    (first : ∀ c, text.head? = some c → Text.isBlank c = false)
    (last : ∀ c, text.getLast? = some c → Text.isBlank c = false) :
    Inked (Utf8.encode text) := by
  have hnot : ∀ b c, b ∈ String.utf8EncodeChar c → Text.isBlank c = false →
      isSpace b = false := by
    intro b c hmem hc
    cases hb : isSpace b with
    | false => rfl
    | true =>
        have hblank := (isBlank_of_isSpace hmem hb).2
        rw [hc] at hblank
        cases hblank
  constructor
  · intro b hb
    obtain ⟨c, hc, hmem⟩ := Utf8.head?_encode hb
    exact hnot b c hmem (first c hc)
  · intro b hb
    obtain ⟨c, hc, hmem⟩ := Utf8.getLast?_encode hb
    exact hnot b c hmem (last c hc)

theorem readable_nil : Readable [] := by
  intro raw hraw
  simp [textEvents] at hraw

private theorem readable_utf8EncodeChar {c : Char} (h : c ≠ '&') :
    Readable (String.utf8EncodeChar c) := by
  have htext : textOf (String.utf8EncodeChar c) = .ok [c] := by
    refine textOf_eq_ok_iff.2 ⟨[c], Utf8.decode_utf8EncodeChar c, ?_⟩
    rw [unescape, unescapeFrom_cons_of_ne h, unescapeFrom]
    rfl
  have hempty : Blank [] := by
    intro b hb
    cases hb
  by_cases hspace : ∃ b ∈ String.utf8EncodeChar c, isSpace b = true
  · obtain ⟨b, hmem, hb⟩ := hspace
    have hblank : Blank (String.utf8EncodeChar c) := by
      rw [(isBlank_of_isSpace hmem hb).1]
      intro b' hb'
      obtain rfl := List.mem_singleton.1 hb'
      exact hb
    have hinked : Inked [] := by simp [Inked]
    have hiff := readable_append_iff hempty hinked hblank
    exact hiff.2 ⟨[], textOf_encode_escape []⟩
  · have hinked : Inked (String.utf8EncodeChar c) := by
      have hnot : ∀ b ∈ String.utf8EncodeChar c, isSpace b = false := by
        intro b hmem
        by_contra hb
        exact hspace ⟨b, hmem, by simpa using hb⟩
      exact ⟨fun b hb => hnot b (List.mem_of_mem_head? hb),
        fun b hb => hnot b (List.mem_of_getLast? hb)⟩
    have hiff := readable_append_iff hempty hinked hempty
    rw [List.nil_append, List.append_nil] at hiff
    exact hiff.2 ⟨[c], htext⟩

/-- Text without references can be read. -/
theorem readable_encode {text : List Char} (h : '&' ∉ text) : Readable (Utf8.encode text) := by
  induction text with
  | nil => exact readable_nil
  | cons c text ih =>
      have hc : c ≠ '&' := by
        rintro rfl
        exact h List.mem_cons_self
      have htail : '&' ∉ text := fun hmem => h (List.mem_cons_of_mem c hmem)
      exact (readable_utf8EncodeChar hc).append (ih htail)

/-- An ASCII byte is not among the bytes of a text without its character. -/
theorem not_mem_encode {b : UInt8} {text : List Char} (hb : b.toNat ≤ 0x7F)
    (h : ∀ c ∈ text, c.toNat ≠ b.toNat) : b ∉ Utf8.encode text := by
  intro hmem
  obtain ⟨c, hc, hvalue⟩ := Utf8.toNat_mem_of_mem_encode hmem hb
  exact h c hc hvalue

/-! ## Text that was escaped -/

/-- The special characters but the ampersand do not stand in escaped text. -/
theorem not_mem_escape {c : Char} (h : c ∈ ['<', '>', '\'', '"']) (text : List Char) :
    c ∉ escape text := by
  intro hmem
  obtain ⟨d, -, hd⟩ := List.mem_flatMap.1 hmem
  simp only [List.mem_cons, List.not_mem_nil, or_false] at h
  unfold escapeChar at hd
  repeat' split at hd
  · rcases h with rfl | rfl | rfl | rfl <;> simp at hd
  · rcases h with rfl | rfl | rfl | rfl <;> simp at hd
  · rcases h with rfl | rfl | rfl | rfl <;> simp at hd
  · rcases h with rfl | rfl | rfl | rfl <;> simp at hd
  · rcases h with rfl | rfl | rfl | rfl <;> simp at hd
  · next h1 h2 h3 h4 h5 =>
      obtain rfl := List.mem_singleton.1 hd
      rcases h with rfl | rfl | rfl | rfl
      · exact h1 rfl
      · exact h2 rfl
      · exact h4 rfl
      · exact h5 rfl

/-- A character begins and ends in escaped form as itself, or as a
reference. -/
private theorem ends_escapeChar (c : Char) :
    ((escapeChar c).head? = some c ∨ (escapeChar c).head? = some '&') ∧
      ((escapeChar c).getLast? = some c ∨ (escapeChar c).getLast? = some ';') := by
  unfold escapeChar
  repeat' split
  all_goals simp

/-- Escaping makes no blanks at the ends. -/
private theorem ends_escape {text : List Char}
    (first : ∀ c, text.head? = some c → Text.isBlank c = false)
    (last : ∀ c, text.getLast? = some c → Text.isBlank c = false) :
    (∀ c, (escape text).head? = some c → Text.isBlank c = false) ∧
      ∀ c, (escape text).getLast? = some c → Text.isBlank c = false := by
  constructor
  · intro c hc
    cases text with
    | nil => simp [escape] at hc
    | cons d text =>
        rw [escape, List.flatMap_cons, List.head?_append] at hc
        rcases (ends_escapeChar d).1 with hd | hd
        · rw [hd, Option.some_or] at hc
          exact Option.some.inj hc ▸ first d rfl
        · rw [hd, Option.some_or] at hc
          exact Option.some.inj hc ▸ (by decide)
  · intro c hc
    rcases List.eq_nil_or_concat' text with rfl | ⟨init, d, rfl⟩
    · simp [escape] at hc
    · have hend : (init ++ [d]).getLast? = some d := List.getLast?_concat
      rw [escape, List.flatMap_append, List.flatMap_singleton, List.getLast?_append] at hc
      rcases (ends_escapeChar d).2 with hd | hd
      · rw [hd, Option.some_or] at hc
        exact Option.some.inj hc ▸ last d hend
      · rw [hd, Option.some_or] at hc
        exact Option.some.inj hc ▸ (by decide)

/-- Escaped text stands between two pieces of markup. -/
theorem bracket_not_mem_encode_escape (text : List Char) :
    0x3C ∉ Utf8.encode (escape text) := by
  apply not_mem_encode (by decide)
  intro c hc hvalue
  have hbracket : c = '<' := by
    apply Char.toNat_inj.1
    exact hvalue
  exact not_mem_escape (by decide) text (hbracket ▸ hc)

/-- A text without blank characters at its ends is what its escaped form
yields. -/
theorem textEvents_encode_escape {text : List Char}
    (first : ∀ c, text.head? = some c → Text.isBlank c = false)
    (last : ∀ c, text.getLast? = some c → Text.isBlank c = false) :
    textEvents (Utf8.encode (escape text)) =
      if Utf8.encode (escape text) = [] then [] else [.text (Utf8.encode (escape text))] := by
  obtain ⟨hfirst, hlast⟩ := ends_escape first last
  have hempty : Blank [] := by
    intro b hb
    cases hb
  have hevents := textEvents_append hempty (inked_encode hfirst hlast) hempty
  rwa [List.nil_append, List.append_nil] at hevents

end GroovyFindings.Xml
