import GroovyFindings.Text.Affix
import GroovyFindings.Text.Blank

/-!
# Names of Groovy files

A list of suffixes says which files are Groovy files. A suffix may be
written with or without its dot and between blanks; a blank one says
nothing. The scanner compares suffixes without regard to the case of ASCII
letters. The linter is given one pattern for each suffix, as written.

## Main definitions

* `dotted`, `suffixesOf` — the suffixes of a list.
* `hasSuffix` — a path has one of them.
* `includesFor` — the linter's patterns.
-/

namespace GroovyFindings

/-- A suffix with its dot. -/
def dotted (suffix : List Char) : List Char :=
  match suffix with
  | '.' :: _ => suffix
  | _ => '.' :: suffix

/-- The suffixes that a list says, without the blanks around them. -/
def suffixesOf (suffixes : List String) : List (List Char) :=
  (suffixes.map fun s => Text.trim s.toList).filter (!·.isEmpty)

/-- What follows the last slash. -/
def lastSegment (path : List Char) : List Char :=
  (path.splitOn '/').getLast?.getD []

/-- A text with the small form of every ASCII capital. -/
def smallLetters (text : List Char) : List Char := text.map Char.toLower

/-- The name at the end of a path has one of the suffixes. -/
def hasSuffix (path : String) (suffixes : List String) : Bool :=
  let name := smallLetters (lastSegment path.toList)
  (suffixesOf suffixes).any fun s => (dotted (smallLetters s)).isSuffixOf name

/-- The pattern for files of any directory with a suffix. -/
def includePattern (suffix : List Char) : List Char :=
  ['*', '*', '/', '*'] ++ dotted suffix

/-- One pattern for each suffix, with commas between them. -/
def includesFor (suffixes : List String) : String :=
  String.ofList ([','].intercalate ((suffixesOf suffixes).map includePattern))

end GroovyFindings
