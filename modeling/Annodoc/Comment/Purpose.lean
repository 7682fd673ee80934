import Annodoc.Comment.Line
import Annodoc.Grammar.Token
import Annodoc.Text.Word

/-!
# The purpose of a block

What a comment block documents, by its tags and the line below it.
-/

namespace Annodoc.Comment
open Text Grammar

/-- The longest beginning with characters of a kind, if it is not empty and only white space
stands between it and the mark `c`. -/
def nameBefore (c : Char) (kind : Char → Bool) (cs : List Char) : Option String :=
  let name := cs.takeWhile kind
  if name ≠ [] ∧ (trimStart (cs.dropWhile kind)).head? = some c then some (String.ofList name)
  else none

/-- The characters of a function's name after its capital. -/
def isNameChar (c : Char) : Bool := isIdent c || c = ':' || c = '.'

/-- The name in an assignment `M.name =`. -/
def assignedName? (line : List Char) : Option String :=
  (literal? "M." line).bind (nameBefore '=' isWordChar)

/-- The name in a statement `function Name(`, which begins with a capital. -/
def statementName? (line : List Char) : Option String :=
  (literal? "function " line).bind fun rest =>
    if rest.head?.any Char.isUpper then nameBefore '(' isNameChar rest else none

/-- The name of the function that a line declares. -/
def declaredName? (line : String) : Option String :=
  (assignedName? line.toList).or (statementName? line.toList)

inductive Purpose where
  | functionNamed (name : String)
  | someClass
  | someAlias
  | nothing
  deriving DecidableEq, Repr

/-- The tags of a block, line by line. -/
def blockTags (lines : List String) : List Tag := lines.filterMap fun line => tag? (body line)

/-- A block above a function documents it if it has no tag at all, or one of a parameter or a
result; otherwise the tags for classes and aliases decide. -/
def Purpose.ofBlock (lines : List String) (next : Option String) : Purpose :=
  let tags := blockTags lines
  let other := if .classHeader ∈ tags then someClass
    else if .aliasHeader ∈ tags then someAlias
    else nothing
  match next.bind declaredName? with
  | some name => if tags = [] ∨ .param ∈ tags ∨ .returns ∈ tags then functionNamed name else other
  | none => other

end Annodoc.Comment
