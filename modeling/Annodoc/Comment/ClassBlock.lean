import Annodoc.Comment.FunctionBlock

/-!
# Class blocks

Blocks that declare a class: lines that describe it, the header, a line that may mark it opaque,
and one field or more.
-/

namespace Annodoc.Comment
open Text Grammar
open LineMismatch (atLine)

/-- What a header tells: the name, the parent, and whether the class is exact. -/
structure Header where
  name : String
  parent : Option String
  isExact : Bool
  deriving DecidableEq, Repr

/-- The parent after a colon, if there is one. -/
def parentClass (cs : List Char) : Except Stop (Option String × List Char) :=
  match mark? ':' cs with
  | none => .ok (none, cs)
  | some rest =>
    let rest := dropBlanks rest
    if wordPart rest = [] then .error ⟨.parentName, rest⟩
    else .ok (some (String.ofList (wordPart rest)), afterWord rest)

/-- Maybe the mark `(exact)`, then a name up to white space or a colon, then maybe a parent. -/
def header (text : List Char) : Except Stop Header := do
  let (isExact, rest) := match literal? "(exact)" (dropBlanks text) with
    | some rest => (true, dropBlanks rest)
    | none => (false, dropBlanks text)
  let inName (c : Char) : Bool := !isSpace c && c ≠ ':'
  let name := rest.takeWhile inName
  if name = [] then .error ⟨.className, rest⟩ else do
    let (parent, rest) ← parentClass (rest.dropWhile inName)
    nothingMore rest
    .ok ⟨String.ofList name, parent, isExact⟩

/-- The type in brackets of the keys, then the type of the values. -/
def keyedField (limit : Nat) (cs : List Char) : Except Stop Field := do
  let (key, rest) ← LuaType.readWithin limit cs
  let rest ← mark ']' rest
  let (type, rest) ← LuaType.readWithin limit rest
  .ok ⟨.keyed key, type, description rest⟩

/-- What follows the name of a field. -/
def namedField (limit : Nat) (scope : Option Scope) (name : String) (cs : List Char) :
    Except Stop Field := do
  let (optional, rest) := questionMark cs
  let (type, rest) ← LuaType.readWithin limit rest
  .ok ⟨.named name scope, type.ofPlace optional, description rest⟩

/-- A field after a scope. -/
def fieldWithScope (limit : Nat) (scope : Scope) (cs : List Char) : Except Stop Field := do
  let (name, rest) ← name (dropBlanks cs)
  namedField limit (some scope) name rest

/-- Of two stops the later one, the first of two at one place. -/
def laterStop (a b : Stop) : Stop := if b.rest.length < a.rest.length then b else a

/-- A field: `[key] type`, `scope name type` or `name type`, then a description. The word for a
scope is a name where no scoped field can be read. -/
def field (limit : Nat) (text : List Char) : Except Stop Field :=
  let cs := dropBlanks text
  match cs with
  | '[' :: rest => keyedField limit rest
  | _ =>
    match name cs with
    | .error _ => .error ⟨.token '[', cs⟩
    | .ok (word, rest) =>
      match Scope.ofText? word with
      | none => namedField limit none word rest
      | some scope =>
        match fieldWithScope limit scope rest, namedField limit none word rest with
        | .ok field, _ => .ok field
        | .error _, .ok field => .ok field
        | .error a, .error b => .error (laterStop a b)

/-- The lines below a header: whether they mark the class opaque, and its fields. The mark stands
once, before any field. -/
def members (limit : Nat) : Nat → Bool → List (List Char) → Except LineMismatch (Bool × List Field)
  | _, _, [] => .ok (false, [])
  | index, markAllowed, line :: rest =>
    match splitTag line with
    | some (.opaqueMark, text) =>
      if markAllowed then do
        atLine index line (nothingMore text)
        let (_, fields) ← members limit (index + 1) false rest
        .ok (true, fields)
      else atLine index line (.error ⟨.fieldTag, trimStart line⟩)
    | some (.field, text) => do
      let field ← atLine index line (field limit text)
      let (_, fields) ← members limit (index + 1) false rest
      .ok (false, field :: fields)
    | none =>
      if isEmptyText line then members limit (index + 1) markAllowed rest
      else atLine index line (.error ⟨.fieldTag, trimStart line⟩)
    | some _ => atLine index line (.error ⟨.fieldTag, trimStart line⟩)

def classBlockWithin (limit : Nat) (lines : List String) : Except LineMismatch ClassDoc := do
  let block := lines.map body
  let about := block.takeWhile fun line => (tag? line).isNone
  let index := about.length
  let line := (block.drop index).head?.getD []
  match splitTag line with
  | some (.classHeader, text) => do
    let h ← atLine index line (header text)
    let (isOpaque, fields) ← members limit (index + 1) true (block.drop (index + 1))
    if fields.isEmpty then atLine index [] (.error ⟨.someField, []⟩)
    else
      let desc := unlines (about.map fun line => String.ofList (trim line))
      .ok ⟨h.name, h.parent, isOpaque, h.isExact, String.ofList (trim desc.toList), fields⟩
  | _ => atLine index line (.error ⟨.classTag, line⟩)

/-- The class that comment lines declare. -/
def classBlock (lines : List String) : Except LineMismatch ClassDoc :=
  classBlockWithin LuaType.depthLimit lines

end Annodoc.Comment
