import Annodoc.Comment.Line
import Annodoc.Documentation
import Annodoc.Grammar.Token

/-!
# Alias blocks

Blocks that declare an alias: the header, then the values, one a line, as `| 'value'` or
`| 'value' # description`.
-/

namespace Annodoc.Comment
open Text Grammar

/-- The description of a value: nothing, or a text without line feeds after ` # `. -/
def valueDesc? : List Char → Option String
  | [] => some ""
  | ' ' :: '#' :: ' ' :: desc =>
    if desc = [] ∨ '\n' ∈ desc then none else some (String.ofList desc)
  | _ => none

/-- A value between quotes, which holds no quote and is not empty. -/
def aliasValue? (line : List Char) : Option Choice := do
  let rest ← literal? "| '" line
  let value := rest.takeWhile (· ≠ '\'')
  if value = [] then none else
    match rest.dropWhile (· ≠ '\'') with
    | [] => none
    | _ :: rest => do
      let desc ← valueDesc? rest
      some ⟨String.ofList value, desc⟩

/-- The alias that comment lines declare. Apart from empty lines, only values may follow the
header, and at least one has to. -/
def aliasBlock? (lines : List String) : Option AliasDoc := do
  let block := (lines.map body).dropWhile fun line => tag? line ≠ some .aliasHeader
  let (line, rest) ← block.head?.map (·, block.drop 1)
  let (_, text) ← splitTag line
  let name := wordPart (trimStart text)
  let written := rest.filter fun line => !isEmptyText line
  let values ← written.mapM fun line => aliasValue? (trimEnd line)
  if name = [] ∨ values = [] then none else some ⟨String.ofList name, values⟩

end Annodoc.Comment
