import GroovyFindings.Proofs.Text.Blank
import GroovyFindings.Proofs.Xml.Attribute
import GroovyFindings.Proofs.Xml.EndTag

/-!
# Names of letters

The elements and attributes of a report have names of letters.  None of the
bytes that markup is made of is a letter, so such a name can stand in a tag as
it is, and it is read as it is written.

## Main definitions

* `Lettered` — names of letters, one at least.

## Main results

* `Lettered.tagName`, `Lettered.ordinary` — such a name can be that of a tag.
* `Lettered.localName_ofContent` — it is the local name of such a tag.
-/

namespace GroovyFindings.Xml

/-- The name consists of letters, of one at least. -/
def Lettered (name : String) : Prop :=
  name.toList ≠ [] ∧ name.toList.all Char.isAlpha = true

instance (name : String) : Decidable (Lettered name) :=
  inferInstanceAs (Decidable (_ ∧ _))

/-- The bytes of characters that are not letters. -/
def isOther (b : UInt8) : Bool := b.toNat ≤ 0x7F && !(Char.ofNat b.toNat).isAlpha

namespace Lettered

variable {name : String}

theorem not_mem_ofString (h : Lettered name) {b : UInt8} (other : isOther b = true) :
    b ∉ Utf8.ofString name := by
  simp only [isOther, Bool.and_eq_true, decide_eq_true_eq, Bool.not_eq_true'] at other
  apply not_mem_encode other.1
  intro c hc hvalue
  have hletter := List.all_eq_true.1 h.2 c hc
  have hother := other.2
  rw [← hvalue, Char.ofNat_toNat, hletter] at hother
  cases hother

theorem isOther_of_mem (h : Lettered name) {b : UInt8} (hb : b ∈ Utf8.ofString name) :
    isOther b = false := by
  cases hother : isOther b with
  | false => rfl
  | true => exact absurd hb (h.not_mem_ofString hother)

theorem ofString_ne_nil (h : Lettered name) : Utf8.ofString name ≠ [] := by
  obtain ⟨c, text, htext⟩ := List.exists_cons_of_ne_nil h.1
  have hbytes : String.utf8EncodeChar c ≠ [] := String.utf8EncodeChar_ne_nil
  simp [Utf8.ofString, Utf8.encode, htext, hbytes]

/-- Blanks are not letters. -/
theorem isEndSpace_eq (h : Lettered name) :
    ∀ b ∈ Utf8.ofString name, isEndSpace b = false := by
  intro b hb
  have hletter := h.isOther_of_mem hb
  rw [← Bool.not_eq_true]
  intro hspace
  simp only [isEndSpace, isSpace, Bool.or_eq_true, beq_iff_eq] at hspace
  rcases hspace with (((rfl | rfl) | rfl) | rfl) | rfl <;> exact absurd hletter (by decide)

theorem isInk_eq (h : Lettered name) : ∀ b ∈ Utf8.ofString name, isInk b = true := by
  intro b hb
  have hspace := h.isEndSpace_eq b hb
  simp only [isEndSpace, Bool.or_eq_false_iff] at hspace
  simp [isInk, hspace.1]

/-- Neither are the bytes that a tag is not read over. -/
theorem isMark_eq (h : Lettered name) : ∀ b ∈ Utf8.ofString name, isMark b = false := by
  intro b hb
  have hletter := h.isOther_of_mem hb
  rw [← Bool.not_eq_true]
  intro hmark
  simp only [isMark, Bool.or_eq_true, beq_iff_eq] at hmark
  rcases hmark with ((rfl | rfl) | rfl) | rfl <;> exact absurd hletter (by decide)

/-- Attributes can have such a name too. -/
theorem key_plain (h : Lettered name) :
    ∀ b ∈ Utf8.ofString name, isInk b = true ∧ isMark b = false := by
  intro b hb
  exact ⟨h.isInk_eq b hb, h.isMark_eq b hb⟩

theorem exists_getLast?_eq (h : Lettered name) :
    ∃ b ∈ Utf8.ofString name, (Utf8.ofString name).getLast? = some b := by
  have hne := h.ofString_ne_nil
  exact ⟨_, List.getLast_mem hne, List.getLast?_eq_some_getLast hne⟩

theorem endName_eq (h : Lettered name) :
    endName (Utf8.ofString name) = Utf8.ofString name := by
  obtain ⟨b, hb, hlast⟩ := h.exists_getLast?_eq
  have hspace := h.isEndSpace_eq b hb
  have hsome : ¬(Utf8.ofString name).all isEndSpace = true := by
    intro hall
    rw [List.all_eq_true.1 hall b hb] at hspace
    cases hspace
  rw [endName, if_neg hsome]
  apply Text.dropEndWhile_eq_self
  intro b' hb'
  rw [hlast] at hb'
  cases hb'
  exact hspace

/-- A name of letters can be that of a tag. -/
theorem tagName (h : Lettered name) : TagName (Utf8.ofString name) where
  ink := h.isInk_eq
  plain := h.isMark_eq
  first := by
    obtain ⟨b, bytes, hbytes⟩ := List.exists_cons_of_ne_nil h.ofString_ne_nil
    have hletter : isOther b = false := h.isOther_of_mem (by simp [hbytes])
    rw [hbytes, List.head?_cons]
    intro hmem
    simp only [List.mem_cons, reduceCtorEq, Option.some.injEq, List.not_mem_nil, or_false,
      false_or] at hmem
    rcases hmem with rfl | rfl | rfl <;> exact absurd hletter (by decide)
  last := by
    intro hslash
    have hmem := List.mem_of_getLast? hslash
    exact h.not_mem_ofString (by decide) hmem
  behind := h.endName_eq

theorem ordinary (h : Lettered name) : Ordinary (Utf8.ofString name) where
  unopened := h.not_mem_ofString (by decide)
  unclosed := h.not_mem_ofString (by decide)
  last := by
    obtain ⟨b, hb, hlast⟩ := h.exists_getLast?_eq
    have hletter := h.isOther_of_mem hb
    refine ⟨b, hlast, ?_, h.isEndSpace_eq b hb⟩
    intro hmem
    simp only [List.mem_cons, List.not_mem_nil, or_false] at hmem
    rcases hmem with rfl | rfl | rfl | rfl <;> exact absurd hletter (by decide)

/-- There is no colon in a name of letters, which is therefore local. -/
theorem lossyString_localPart (h : Lettered name) :
    Utf8.lossyString (localPart (Utf8.ofString name)) = name := by
  have hcolon : (Utf8.ofString name).dropWhile (· != 0x3A) = [] := by
    rw [List.dropWhile_eq_nil_iff]
    intro b hb
    have hletter := h.isOther_of_mem hb
    rw [bne_iff_ne]
    rintro rfl
    exact absurd hletter (by decide)
  rw [localPart, hcolon]
  simp only
  rw [Utf8.lossyString, Utf8.ofString, Utf8.decodeLossy_encode, String.ofList_toList]

/-- The tag is called what it was written to be called. -/
theorem localName_ofContent (h : Lettered name) (tag : WrittenTag) :
    (Tag.ofContent (tag.content (Utf8.ofString name))).localName = name := by
  rw [tag.ofContent_eq h.tagName]
  exact h.lossyString_localPart

end Lettered

end GroovyFindings.Xml
