import Annodoc.Comment.Line
import Annodoc.Documentation
import Annodoc.LuaType.Parser
import Annodoc.Text.Lines

/-!
# Function blocks

Blocks that document a function: a summary line, then clauses, each of which begins with a tag.
Indented lines below a parameter are its parts, and those below an example or a note its text.
The first line that does not fit fails the whole block.
-/

namespace Annodoc.Comment

inductive Clause where
  | param (p : Param)
  | returns (r : Return)
  | privateMark
  | deprecatedMark
  | sample (text : String)
  | note (text : String)
  deriving Repr

namespace Clause

def param? : Clause → Option Param
  | .param p => some p
  | _ => none

def return? : Clause → Option Return
  | .returns r => some r
  | _ => none

def sample? : Clause → Option String
  | .sample t => some t
  | _ => none

def note? : Clause → Option String
  | .note t => some t
  | _ => none

def isPrivate : Clause → Bool
  | .privateMark => true
  | _ => false

def isDeprecated : Clause → Bool
  | .deprecatedMark => true
  | _ => false

end Clause

/-- The function that clauses document. Of several examples or notes the last one stands. -/
def functionOfClauses (name summary : String) (clauses : List Clause) : FunctionDoc where
  name := name
  summary := summary
  params := clauses.filterMap Clause.param?
  returns := clauses.filterMap Clause.return?
  sample := (clauses.filterMap Clause.sample?).getLast?
  note := (clauses.filterMap Clause.note?).getLast?
  isPrivate := clauses.any Clause.isPrivate
  isDeprecated := clauses.any Clause.isDeprecated

open Text Grammar
open LineMismatch (atLine)

/-- The text after a type describes what has the type. -/
def description (rest : List Char) : String := String.ofList (trim rest)

/-- A name, the mark of an optional place, a type and a description. -/
def parameter (limit : Nat) (name : Reader String) (cs : List Char) : Except Stop Param := do
  let (name, rest) ← name (dropBlanks cs)
  let (optional, rest) := questionMark rest
  let (type, rest) ← LuaType.readWithin limit rest
  .ok ⟨name, type.ofPlace optional, description rest, []⟩

/-- The parts of a parameter, one a line, from line `index` on. -/
def subparams (limit : Nat) : Nat → List (List Char) → Except LineMismatch (List Param)
  | _, [] => .ok []
  | index, line :: rest => do
    let p ← atLine index line (parameter limit Grammar.name line)
    let ps ← subparams limit (index + 1) rest
    .ok (p :: ps)

/-- The indented lines below a tag. Each loses the blank that it begins with. -/
def bodyText (index : Nat) (indented : List (List Char)) (next : List Char) :
    Except LineMismatch String :=
  if indented = [] then atLine index next (.error ⟨.indentedLine, next⟩)
  else .ok (unlines (indented.map fun line => String.ofList (line.drop 1)))

/-- Whether indented lines below the tag belong to it. -/
def Tag.hasBody : Tag → Bool
  | .param | .sample | .note => true
  | _ => false

/-- The clause of a tag on line `index`, from the text after the tag and the indented lines below;
`next` is the line below. -/
def clause (limit index : Nat) (line : List Char) (tag : Tag) (text : List Char)
    (indented : List (List Char)) (next : List Char) : Except LineMismatch Clause :=
  match tag with
  | .param => do
    let p ← atLine index line (parameter limit LuaType.paramName text)
    let subs ← subparams limit (index + 1) indented
    .ok (.param { p with subparams := subs })
  | .returns => do
    let (type, rest) ← atLine index line (LuaType.readWithin limit text)
    .ok (.returns ⟨type, description rest⟩)
  | .privateMark => do
    atLine index line (nothingMore text)
    .ok .privateMark
  | .deprecatedMark => do
    atLine index line (nothingMore text)
    .ok .deprecatedMark
  | .sample => do
    atLine index line (nothingMore text)
    let body ← bodyText (index + 1) indented next
    .ok (.sample body)
  | .note => do
    atLine index line (nothingMore text)
    let body ← bodyText (index + 1) indented next
    .ok (.note body)
  | _ => atLine index line (.error ⟨.functionTag, trimStart line⟩)

/-- The clauses of a block from line `index` on. Empty lines may stand between them. -/
def clauses (limit index : Nat) (block : List (List Char)) : Except LineMismatch (List Clause) :=
  match block with
  | [] => .ok []
  | line :: rest =>
    if isEmptyText line then clauses limit (index + 1) rest else
      match splitTag line with
      | none => atLine index line (.error ⟨.aTag, line⟩)
      | some (tag, text) => do
        let indented := if tag.hasBody then rest.takeWhile isInnerText else []
        let c ← clause limit index line tag text indented (rest.head?.getD [])
        let cs ← clauses limit (index + 1 + indented.length) (rest.drop indented.length)
        .ok (c :: cs)
termination_by block.length
decreasing_by
  all_goals simp only [List.length_cons, List.length_drop]; omega

/-- The first line with text is the summary, unless it has a tag. The clauses follow, from the
given line on. -/
def summaryAndClauses (block : List (List Char)) : String × Nat × List (List Char) :=
  let skipped := (block.takeWhile isEmptyText).length
  match block.drop skipped with
  | [] => ("", skipped, [])
  | line :: rest =>
    if (tag? line).isNone then (String.ofList (trim line), skipped + 1, rest)
    else ("", skipped, line :: rest)

def functionBlockWithin (limit : Nat) (name : String) (lines : List String) :
    Except LineMismatch FunctionDoc := do
  let (summary, index, rest) := summaryAndClauses (lines.map body)
  let cs ← clauses limit index rest
  .ok (functionOfClauses name summary cs)

/-- The documentation of the function `name` by its comment lines. -/
def functionBlock (name : String) (lines : List String) : Except LineMismatch FunctionDoc :=
  functionBlockWithin LuaType.depthLimit name lines

end Annodoc.Comment
