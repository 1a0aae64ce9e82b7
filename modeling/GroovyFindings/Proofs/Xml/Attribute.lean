import GroovyFindings.Proofs.Xml.Text
import Mathlib.Data.List.Nodup

/-!
# Attributes that were written

A start tag can be written in many ways: its attributes in any order, in
either kind of quotes, with blanks between and in them.  This file describes
the start tags of a name and some attributes, and shows that such a tag is read
as one and that every attribute is found in it by its key.

## Main definitions

* `WrittenAttribute` — an attribute, its blanks and its quotes.
* `WrittenTag` — a start tag of distinct attributes.
* `TagName` — names that a start tag and an end tag can have.

## Main results

* `WrittenTag.opens` — a written tag is read as a start tag.
* `WrittenTag.attribute?_eq_some`, `WrittenTag.attribute?_eq_none` — what is
  found in it.
-/

namespace GroovyFindings.Xml

/-! ## One attribute -/

/-- The bytes that a tag is not read over: equals signs, quotes and the closing
bracket. -/
def isMark (b : UInt8) : Bool := b == 0x3D || b == 0x3E || b == 0x22 || b == 0x27

/-- An attribute as it stands in a tag, behind a blank at least. -/
structure WrittenAttribute where
  lead : List UInt8
  key : List UInt8
  beforeEquals : List UInt8
  afterEquals : List UInt8
  quote : UInt8
  /-- What stands between the quotes. -/
  raw : List UInt8
  lead_ne : lead ≠ []
  lead_blank : Blank lead
  key_ne : key ≠ []
  key_plain : ∀ b ∈ key, isInk b = true ∧ isMark b = false
  beforeEquals_blank : Blank beforeEquals
  afterEquals_blank : Blank afterEquals
  quote_eq : quote = 0x22 ∨ quote = 0x27
  raw_closed : quote ∉ raw

namespace WrittenAttribute

/-- The bytes of an attribute. -/
def bytes (a : WrittenAttribute) : List UInt8 :=
  a.lead ++ (a.key ++ (a.beforeEquals ++
    0x3D :: (a.afterEquals ++ a.quote :: (a.raw ++ [a.quote]))))

variable (a : WrittenAttribute)

theorem isSpace_quote : isSpace a.quote = false := by
  rcases a.quote_eq with h | h <;> rw [h] <;> decide

private theorem dropWhile_lead {lead : List UInt8} {b : UInt8} (hlead : Blank lead)
    (hb : isSpace b = false) (more : List UInt8) :
    (lead ++ b :: more).dropWhile isSpace = b :: more ∧
      (lead ++ b :: more).takeWhile isSpace = lead := by
  constructor
  · rw [List.dropWhile_append_of_pos hlead, List.dropWhile_cons, if_neg (by simp [hb])]
  · rw [List.takeWhile_append_of_pos hlead, List.takeWhile_cons, if_neg (by simp [hb]),
      List.append_nil]

/-- The value is what stands between the quotes. -/
theorem value_eq (pos : Nat) (rest : List UInt8) :
    Attributes.value pos (a.afterEquals ++ a.quote :: (a.raw ++ a.quote :: rest)) =
      .ok (a.raw, pos + a.afterEquals.length + 1 + a.raw.length + 1, rest) := by
  have hskip := dropWhile_lead a.afterEquals_blank a.isSpace_quote
    (a.raw ++ a.quote :: rest)
  have hraw : ∀ b ∈ a.raw, (b != a.quote) = true := by
    intro b hb
    simp only [bne_iff_ne, ne_eq]
    rintro rfl
    exact a.raw_closed hb
  have htake : (a.raw ++ a.quote :: rest).takeWhile (· != a.quote) = a.raw := by
    rw [List.takeWhile_append_of_pos hraw]
    simp
  have hdrop : (a.raw ++ a.quote :: rest).dropWhile (· != a.quote) = a.quote :: rest := by
    rw [List.dropWhile_append_of_pos hraw]
    simp
  simp only [Attributes.value, hskip.1, hskip.2, if_pos a.quote_eq, htake, hdrop]

/-- A key that has not come yet is read up to its end, and the value behind
it. -/
theorem next_eq {seen : List Attribute} (fresh : ∀ e ∈ seen, e.key ≠ a.key)
    (pos : Nat) (rest : List UInt8) :
    Attributes.next seen pos (a.bytes ++ rest) =
      .ok (some (⟨pos + a.lead.length, a.key, a.raw⟩, pos + a.bytes.length, rest)) := by
  obtain ⟨b, key, hkey⟩ := List.exists_cons_of_ne_nil a.key_ne
  let value := a.afterEquals ++ a.quote :: (a.raw ++ a.quote :: rest)
  let tail := a.beforeEquals ++ 0x3D :: value
  have hbytes : a.bytes ++ rest = a.lead ++ b :: (key ++ tail) := by
    simp [bytes, hkey, tail, value]
  have hplain := a.key_plain
  rw [hkey] at hplain
  have hb : isSpace b = false := by
    have hink := (hplain b List.mem_cons_self).1
    simpa [isInk] using hink
  have hskip := dropWhile_lead a.lead_blank hb (key ++ tail)
  have hinKey : ∀ c ∈ key, Attributes.inKey c = true := by
    intro c hc
    have hc' := hplain c (List.mem_cons_of_mem b hc)
    have hmark : c ≠ 0x3D := by
      rintro rfl
      exact absurd hc'.2 (by decide)
    simp [Attributes.inKey, hmark, hc'.1]
  have hstop : tail.takeWhile Attributes.inKey = [] ∧
      tail.dropWhile Attributes.inKey = tail := by
    cases hblanks : a.beforeEquals with
    | nil => simp [tail, hblanks, Attributes.inKey]
    | cons c blanks =>
        have hc := a.beforeEquals_blank c (by simp [hblanks])
        have hnot : Attributes.inKey c = false := by simp [Attributes.inKey, isInk, hc]
        simp [tail, hblanks, hnot]
  have hequals := dropWhile_lead a.beforeEquals_blank
    (show isSpace 0x3D = false by decide) value
  have hunseen : seen.find? (fun e => decide (e.key = b :: key)) = none := by
    rw [List.find?_eq_none]
    intro e he
    rw [← hkey]
    simpa using fresh e he
  have hlength : pos + a.lead.length + (b :: key).length + a.beforeEquals.length + 1 +
      a.afterEquals.length + 1 + a.raw.length + 1 = pos + a.bytes.length := by
    simp only [bytes, hkey, List.length_append, List.length_cons, List.length_nil]
    omega
  rw [hbytes]
  simp only [Attributes.next, hskip.1, hskip.2, List.takeWhile_append_of_pos hinKey,
    List.dropWhile_append_of_pos hinKey, hstop.1, hstop.2, List.append_nil]
  simp only [tail, hequals.1, hequals.2, hunseen, value, a.value_eq, hlength, hkey]

end WrittenAttribute

/-- An attribute behind one blank, in double quotes. -/
def WrittenAttribute.ofValue (key : List UInt8) (value : List Char) (key_ne : key ≠ [])
    (key_plain : ∀ b ∈ key, isInk b = true ∧ isMark b = false) : WrittenAttribute where
  lead := [0x20]
  key := key
  beforeEquals := []
  afterEquals := []
  quote := 0x22
  raw := Utf8.encode (escape value)
  lead_ne := by simp
  lead_blank := Blank.space
  key_ne := key_ne
  key_plain := key_plain
  beforeEquals_blank := Blank.nil
  afterEquals_blank := Blank.nil
  quote_eq := .inl rfl
  raw_closed := by
    apply not_mem_encode (by decide)
    intro c hc hvalue
    have hquote : c = '"' := Char.toNat_inj.1 hvalue
    exact not_mem_escape (by decide) value (hquote ▸ hc)

/-! ## Looking for a key -/

namespace Attributes

theorem lookup_of_end {wanted bytes : List UInt8} {seen : List Attribute} {pos : Nat}
    (h : next seen pos bytes = .ok none) : lookup wanted seen pos bytes = .ok none := by
  rw [lookup]
  split
  · next heq => rw [h] at heq; cases heq
  · rfl
  · next heq => rw [h] at heq; cases heq

theorem lookup_of_next {wanted bytes rest : List UInt8} {seen : List Attribute}
    {pos pos' : Nat} {a : Attribute} (h : next seen pos bytes = .ok (some (a, pos', rest))) :
    lookup wanted seen pos bytes =
      if a.key = wanted then .ok (some a.value)
      else lookup wanted (seen ++ [a]) pos' rest := by
  rw [lookup]
  split
  · next heq => rw [h] at heq; cases heq
  · next heq => rw [h] at heq; cases heq
  · next heq =>
      rw [h] at heq
      obtain ⟨rfl, rfl, rfl⟩ := by simpa using heq
      rfl

/-- Among attributes with distinct keys, which differ from those of the ones
seen so far, the one with the key that is looked for is found. -/
theorem lookup_flatMap (wanted : List UInt8) {attributes : List WrittenAttribute}
    {trail : List UInt8} {seen : List Attribute}
    (distinct : (attributes.map (·.key)).Nodup)
    (fresh : ∀ a ∈ attributes, ∀ e ∈ seen, e.key ≠ a.key) (blank : Blank trail) (pos : Nat) :
    lookup wanted seen pos (attributes.flatMap (·.bytes) ++ trail) =
      .ok ((attributes.find? (·.key = wanted)).map (·.raw)) := by
  induction attributes generalizing seen pos with
  | nil =>
      apply lookup_of_end
      have hend : trail.dropWhile isSpace = [] := by
        rw [List.dropWhile_eq_nil_iff]
        exact blank
      simp only [List.flatMap_nil, List.nil_append, next, hend]
  | cons a attributes ih =>
      rw [List.map_cons, List.nodup_cons] at distinct
      have hnext := a.next_eq (fresh a List.mem_cons_self) pos
        (attributes.flatMap (·.bytes) ++ trail)
      rw [List.flatMap_cons, List.append_assoc, lookup_of_next hnext]
      by_cases hkey : a.key = wanted
      · rw [if_pos hkey, List.find?_cons_of_pos (by simpa using hkey)]
        rfl
      · rw [if_neg hkey, List.find?_cons_of_neg (by simpa using hkey)]
        apply ih distinct.2
        intro a' ha' e he
        rcases List.mem_append.1 he with he | he
        · exact fresh a' (List.mem_cons_of_mem a ha') e he
        · obtain rfl := List.mem_singleton.1 he
          intro heq
          have hmem : a'.key ∈ attributes.map (·.key) := List.mem_map_of_mem ha'
          have hkeys : a.key = a'.key := heq
          rw [← hkeys] at hmem
          exact distinct.1 hmem

end Attributes

/-! ## Quotes -/

namespace Token

theorem quoteAfter_of_plain {content : List UInt8} (h : ∀ b ∈ content, isMark b = false) :
    quoteAfter none content = some none := by
  induction content with
  | nil => rfl
  | cons b content ih =>
      have hb := h b List.mem_cons_self
      simp only [isMark, Bool.or_eq_false_iff, beq_eq_false_iff_ne] at hb
      have hbehind : quoteBehind none b = none := by simp [quoteBehind, hb.1.2, hb.2]
      rw [quoteAfter, if_neg (by simp [hb.1.1.2]), hbehind]
      exact ih fun c hc => h c (List.mem_cons_of_mem b hc)

theorem quoteAfter_of_not_mem {quote : UInt8} {content : List UInt8} (h : quote ∉ content) :
    quoteAfter (some quote) content = some (some quote) := by
  induction content with
  | nil => rfl
  | cons b content ih =>
      have hb : b ≠ quote := by
        rintro rfl
        exact h List.mem_cons_self
      have hbehind : quoteBehind (some quote) b = some quote := by simp [quoteBehind, hb]
      rw [quoteAfter, if_neg (by simp), hbehind]
      exact ih fun hmem => h (List.mem_cons_of_mem b hmem)

end Token

theorem Blank.isMark_eq {bytes : List UInt8} (h : Blank bytes) :
    ∀ b ∈ bytes, isMark b = false := by
  intro b hb
  have hspace := h b hb
  simp only [isSpace, Bool.or_eq_true, beq_iff_eq] at hspace
  rcases hspace with ((rfl | rfl) | rfl) | rfl <;> decide

/-- The quotes in an attribute are closed, and no bracket outside of them. -/
theorem WrittenAttribute.quoteAfter_bytes (a : WrittenAttribute) :
    Token.quoteAfter none a.bytes = some none := by
  have hquoted : Token.quoteAfter none (a.quote :: (a.raw ++ [a.quote])) = some none := by
    have hopen : Token.quoteBehind none a.quote = some a.quote := by
      simp [Token.quoteBehind, a.quote_eq]
    have hbracket : a.quote ≠ 0x3E := by
      rcases a.quote_eq with h | h <;> rw [h] <;> decide
    rw [Token.quoteAfter, if_neg (by simp [hbracket]), hopen, Token.quoteAfter_append,
      Token.quoteAfter_of_not_mem a.raw_closed]
    simp [Token.quoteAfter, Token.quoteBehind]
  have hequals : Token.quoteAfter none
      (0x3D :: (a.afterEquals ++ a.quote :: (a.raw ++ [a.quote]))) = some none := by
    have hstep : Token.quoteBehind none 0x3D = none := by decide
    rw [Token.quoteAfter, if_neg (by decide), hstep, Token.quoteAfter_append,
      Token.quoteAfter_of_plain a.afterEquals_blank.isMark_eq]
    exact hquoted
  have hkey : ∀ b ∈ a.key, isMark b = false := fun b hb => (a.key_plain b hb).2
  rw [bytes, Token.quoteAfter_append, Token.quoteAfter_of_plain a.lead_blank.isMark_eq,
    Option.bind_some, Token.quoteAfter_append, Token.quoteAfter_of_plain hkey,
    Option.bind_some, Token.quoteAfter_append,
    Token.quoteAfter_of_plain a.beforeEquals_blank.isMark_eq, Option.bind_some]
  exact hequals

/-! ## Tags -/

/-- A name that a start tag and an end tag can have. -/
structure TagName (name : List UInt8) : Prop where
  ink : ∀ b ∈ name, isInk b = true
  plain : ∀ b ∈ name, isMark b = false
  first : name.head? ∉ [none, some 0x21, some 0x2F, some 0x3F]
  last : name.getLast? ≠ some 0x2F
  behind : endName name = name

/-- A start tag as it is written, but for its name. -/
structure WrittenTag where
  attributes : List WrittenAttribute
  /-- The blanks before the closing bracket. -/
  trail : List UInt8
  distinct : (attributes.map (·.key)).Nodup
  trail_blank : Blank trail

/-- A tag without attributes. -/
def WrittenTag.bare : WrittenTag where
  attributes := []
  trail := []
  distinct := List.nodup_nil
  trail_blank := Blank.nil

namespace WrittenTag

variable (tag : WrittenTag) {name : List UInt8}

/-- What stands behind the name. -/
def rest : List UInt8 := tag.attributes.flatMap (·.bytes) ++ tag.trail

/-- The content of the tag. -/
def content (name : List UInt8) : List UInt8 := name ++ tag.rest

@[simp] theorem content_bare (name : List UInt8) : bare.content name = name := by
  simp [content, rest, bare]

theorem isSpace_of_head?_rest {b : UInt8} (h : tag.rest.head? = some b) :
    isSpace b = true := by
  unfold rest at h
  cases hattributes : tag.attributes with
  | nil =>
      rw [hattributes, List.flatMap_nil, List.nil_append] at h
      exact tag.trail_blank b (List.mem_of_mem_head? h)
  | cons a attributes =>
      obtain ⟨b', lead, hlead⟩ := List.exists_cons_of_ne_nil a.lead_ne
      have hb' := a.lead_blank b' (by simp [hlead])
      simp only [hattributes, List.flatMap_cons, WrittenAttribute.bytes, hlead,
        List.cons_append, List.head?_cons, Option.some.injEq] at h
      rw [← h]
      exact hb'

/-- The name of the tag is read up to the first blank. -/
theorem ofContent_eq (hname : TagName name) :
    Tag.ofContent (tag.content name) = ⟨name, tag.rest⟩ := by
  have hrest : tag.rest.takeWhile isInk = [] ∧ tag.rest.dropWhile isInk = tag.rest := by
    cases hcons : tag.rest with
    | nil => exact ⟨rfl, rfl⟩
    | cons b more =>
        have hb := tag.isSpace_of_head?_rest (b := b) (by rw [hcons]; rfl)
        simp [isInk, hb]
  simp only [Tag.ofContent, content, List.takeWhile_append_of_pos hname.ink,
    List.dropWhile_append_of_pos hname.ink, hrest.1, hrest.2, List.append_nil]

theorem quoteAfter_content (hname : TagName name) :
    Token.quoteAfter none (tag.content name) = some none := by
  have hattributes : ∀ attributes : List WrittenAttribute,
      Token.quoteAfter none (attributes.flatMap (·.bytes)) = some none := by
    intro attributes
    induction attributes with
    | nil => rfl
    | cons a attributes ih =>
        rw [List.flatMap_cons, Token.quoteAfter_append, a.quoteAfter_bytes]
        exact ih
  rw [content, rest, Token.quoteAfter_append, Token.quoteAfter_of_plain hname.plain,
    Option.bind_some, Token.quoteAfter_append, hattributes, Option.bind_some]
  exact Token.quoteAfter_of_plain tag.trail_blank.isMark_eq

/-- The last byte of a tag is one of its name, a blank or a quote. -/
theorem getLast?_content_ne (hname : TagName name) :
    (tag.content name).getLast? ≠ some 0x2F := by
  have hbehind : ∀ b, tag.rest.getLast? = some b → b ≠ 0x2F := by
    intro b hb
    unfold rest at hb
    rcases List.eq_nil_or_concat' tag.trail with htrail | ⟨blanks, blank, htrail⟩
    · rw [htrail, List.append_nil] at hb
      rcases List.eq_nil_or_concat' tag.attributes with hnil | ⟨before, a, hlast⟩
      · simp [hnil] at hb
      · have hquote : a.bytes.getLast? = some a.quote := by
          simp [WrittenAttribute.bytes, List.getLast?_append, List.getLast?_cons]
        rw [hlast] at hb
        simp only [List.flatMap_append, List.flatMap_cons, List.flatMap_nil, List.append_nil,
          List.getLast?_append, hquote, Option.some_or, Option.some.injEq] at hb
        rw [← hb]
        rcases a.quote_eq with h | h <;> rw [h] <;> decide
    · rw [htrail, ← List.append_assoc, List.getLast?_concat, Option.some.injEq] at hb
      have hblank := tag.trail_blank b (by simp [htrail, hb])
      rintro rfl
      exact absurd hblank (by decide)
  rw [content, List.getLast?_append]
  cases hlast : tag.rest.getLast? with
  | none => exact hname.last
  | some b =>
      intro heq
      exact hbehind b hlast (Option.some.inj heq)

/-- A written tag is read as a start tag. -/
theorem opens (hname : TagName name) : Opens (tag.content name) name := by
  have hhead : (tag.content name).head? = name.head? := by
    cases name with
    | nil => exact absurd hname.first (by simp)
    | cons b name => rfl
  refine ⟨.tag ?_ (tag.quoteAfter_content hname), tag.getLast?_content_ne hname, ?_, ?_,
    hname.behind⟩
  · rw [hhead]
    intro hmem
    exact hname.first (List.mem_cons_of_mem none hmem)
  · rw [tag.ofContent_eq hname]
  · intro hmem
    exact absurd (hname.plain _ hmem) (by decide)

/-- The tag has an attribute of the given value. -/
def Carries (key value : String) : Prop :=
  ∃ a ∈ tag.attributes, a.key = Utf8.ofString key ∧
    a.raw = Utf8.encode (escape value.toList)

/-- The tag has no attribute of the given key. -/
def Lacks (key : String) : Prop := ∀ a ∈ tag.attributes, a.key ≠ Utf8.ofString key

theorem lookup_eq (key : String) (pos : Nat) :
    Attributes.lookup (Utf8.ofString key) [] pos tag.rest =
      .ok ((tag.attributes.find? (·.key = Utf8.ofString key)).map (·.raw)) :=
  Attributes.lookup_flatMap _ tag.distinct (by simp) tag.trail_blank pos

/-- An attribute is found by its key, and its value is read back. -/
theorem attribute?_eq_some {key value : String} (hname : TagName name)
    (h : tag.Carries key value) :
    (Tag.ofContent (tag.content name)).attribute? key = .ok (some value) := by
  obtain ⟨a, ha, hkey, hraw⟩ := h
  have hfind : tag.attributes.find? (·.key = Utf8.ofString key) = some a := by
    cases hfound : tag.attributes.find? (·.key = Utf8.ofString key) with
    | none =>
        rw [List.find?_eq_none] at hfound
        exact absurd hkey (by simpa using hfound a ha)
    | some a' =>
        have hkey' : a'.key = a.key := by
          have := List.find?_some hfound
          rw [hkey]
          simpa using this
        have hmem := List.mem_of_find?_eq_some hfound
        rw [List.inj_on_of_nodup_map tag.distinct hmem ha hkey']
  rw [tag.ofContent_eq hname, Tag.attribute?]
  simp only [tag.lookup_eq, hfind, Option.map_some, hraw, textOf_encode_escape,
    String.ofList_toList]

theorem attribute?_eq_none {key : String} (hname : TagName name) (h : tag.Lacks key) :
    (Tag.ofContent (tag.content name)).attribute? key = .ok none := by
  have hfind : tag.attributes.find? (·.key = Utf8.ofString key) = none := by
    rw [List.find?_eq_none]
    intro a ha
    simpa using h a ha
  rw [tag.ofContent_eq hname, Tag.attribute?]
  simp only [tag.lookup_eq, hfind, Option.map_none]

end WrittenTag

end GroovyFindings.Xml
