import Annodoc.Text.Blank

/-!
# Comment lines and tags

The lines of a comment block: the marker `---` in front of them, and the tag word that a line may
begin with.
-/

namespace Annodoc.Comment
open Text

/-- What follows the marker of an annotation line. -/
def afterMarker? : List Char → Option (List Char)
  | '-' :: '-' :: '-' :: rest => some rest
  | _ => none

def isMarked (line : String) : Bool := (afterMarker? line.toList).isSome

/-- A line without its marker. -/
def body (line : String) : List Char := (afterMarker? line.toList).getD line.toList

inductive Tag where
  | param
  | returns
  | privateMark
  | deprecatedMark
  | sample
  | note
  | classHeader
  | opaqueMark
  | field
  | aliasHeader
  | unknown
  deriving DecidableEq, Repr

def Tag.ofWord (word : String) : Tag :=
  match word with
  | "@param" => .param
  | "@return" => .returns
  | "@private" => .privateMark
  | "@deprecated" => .deprecatedMark
  | "@example" => .sample
  | "@note" => .note
  | "@class" => .classHeader
  | "@opaque" => .opaqueMark
  | "@field" => .field
  | "@alias" => .aliasHeader
  | _ => .unknown

/-- The tag at the front of a line, after white space, and the text that follows its word. -/
def splitTag (line : List Char) : Option (Tag × List Char) :=
  match trimStart line with
  | '@' :: rest =>
    some (.ofWord (String.ofList (wordPart ('@' :: rest))), afterWord ('@' :: rest))
  | _ => none

def tag? (line : List Char) : Option Tag := (splitTag line).map Prod.fst

/-- A line that begins with a blank and holds text, but no tag. -/
def isInnerText (line : List Char) : Bool :=
  line.head?.any isBlank && !isEmptyText line && (tag? line).isNone

theorem isInnerText_eq_false_of_tag {line : List Char} {t : Tag} (h : tag? line = some t) :
    isInnerText line = false := by simp [isInnerText, h]

theorem isInnerText_eq_false_of_isEmptyText {line : List Char} (h : isEmptyText line = true) :
    isInnerText line = false := by simp [isInnerText, h]

end Annodoc.Comment
