import Annodoc.Grammar.Token
import Annodoc.LuaType.Basic

/-!
# The grammar of types

The grammar of type expressions. Blanks may stand between two tokens, but neither before the
brackets of a list nor around the dots of a name.

```text
type    := single ("|" single)*
single  := element "[]" | "table" "<" type "," type ">" | "{" slot ("," slot)* "}"
         | "fun" "(" (slot ("," slot)*)? ")" (":" type)?
         | keyword | quoted text | digits | ident ("." ident)+ "[]"?
slot    := name "?"? ":" type
```

A function's slot may also be named `...`. Keys, values, slots and results of functions nest, and
the reader takes a limit on their nesting; a type that nests deeper is refused, never read as a
shorter one.
-/

namespace Annodoc.LuaType
open Grammar Text

/-- How deep types may nest. -/
def depthLimit : Nat := 64

/-- The text between two quotes. What follows the closing one is left. -/
def quotedText (q : Quote) (cs : List Char) : Option (LuaType × List Char) :=
  match cs.dropWhile (· ≠ q.char) with
  | [] => none
  | _ :: rest => some (.literal q (String.ofList (cs.takeWhile (· ≠ q.char))), rest)

/-- The further parts of a dotted name. A dot that no part follows is left. -/
def dottedParts (cs : List Char) : List String × List Char :=
  match cs with
  | '.' :: rest =>
    if identPart rest = [] then ([], cs) else
      let (parts, after) := dottedParts (afterIdent rest)
      (String.ofList (identPart rest) :: parts, after)
  | _ => ([], cs)
termination_by cs.length
decreasing_by
  have le := (List.dropWhile_suffix (l := rest) isIdent).length_le
  simp only [afterIdent, List.length_cons]
  omega

/-- The brackets of a list. -/
def brackets? : List Char → Option (List Char)
  | '[' :: ']' :: rest => some rest
  | _ => none

def slot (nested : Reader LuaType) (name : Reader String) : Reader (Slot LuaType) := fun cs => do
  let (name, rest) ← name (dropBlanks cs)
  let (optional, rest) := questionMark rest
  let rest ← mark ':' rest
  let (type, rest) ← nested rest
  .ok (⟨name, optional, type⟩, rest)

/-- The name of a function's slot. -/
def paramName : Reader String
  | '.' :: '.' :: '.' :: rest => .ok ("...", rest)
  | cs => Grammar.name cs

/-- What follows `table` in a map. -/
def mapTail (nested : Reader LuaType) : Reader LuaType := fun cs => do
  let rest ← mark '<' cs
  let (key, rest) ← nested rest
  let rest ← mark ',' rest
  let (value, rest) ← nested rest
  let rest ← mark '>' rest
  .ok (.map key value, rest)

/-- What follows the opening brace of a table. -/
def tableTail (nested : Reader LuaType) : Reader LuaType := fun cs => do
  let (slots, rest) ← items ',' (slot nested Grammar.name) cs
  let rest ← mark '}' rest
  .ok (.table slots, rest)

/-- The slots of a function, which may have none. -/
def params (nested : Reader LuaType) : Reader (List (Slot LuaType)) := fun cs =>
  match mark? ')' cs with
  | some _ => .ok ([], cs)
  | none => items ',' (slot nested paramName) cs

/-- What follows `fun`. -/
def functionTail (nested : Reader LuaType) : Reader LuaType := fun cs => do
  let rest ← mark '(' cs
  let (params, rest) ← params nested rest
  let rest ← mark ')' rest
  match mark? ':' rest with
  | none => .ok (.function params none, rest)
  | some rest => do
    let (result, rest) ← nested rest
    .ok (.function params (some result), rest)

/-- A list of `k`, if `k` has lists and brackets follow that end there. -/
def listTail? (k : Keyword) (cs : List Char) : Option (LuaType × List Char) :=
  match k.element?, brackets? cs with
  | some e, some rest => if identPart rest = [] then some (.list e, rest) else none
  | _, _ => none

/-- What follows a keyword. Unless it is too deep, a map that does not fit is the keyword
`table`, whatever follows it. -/
def keywordTail (nested : Reader LuaType) (k : Keyword) : Reader LuaType := fun cs =>
  match listTail? k cs with
  | some found => .ok found
  | none =>
    if k = .table then
      match mapTail nested cs with
      | .ok found => .ok found
      | .error stop => if stop.expected = .shallowerType then .error stop else .ok (.keyword k, cs)
    else .ok (.keyword k, cs)

/-- A type that begins with letters, digits or underscores. -/
def word (nested : Reader LuaType) : Reader LuaType := fun cs =>
  let first := String.ofList (identPart cs)
  let rest := afterIdent cs
  match dottedParts rest with
  | ([], _) =>
    match Keyword.ofText? first with
    | some k => keywordTail nested k rest
    | none =>
      if first = "fun" then functionTail nested rest
      else if identPart cs ≠ [] ∧ (identPart cs).all Char.isDigit then .ok (.number first, rest)
      else .error ⟨.aType, cs⟩
  | (parts, rest) =>
    if identPart cs = [] then .error ⟨.aType, cs⟩ else
      match brackets? rest with
      | some rest => .ok (.named (first :: parts) true, rest)
      | none => .ok (.named (first :: parts) false, rest)

/-- A type that is no union. -/
def single (nested : Reader LuaType) : Reader LuaType := fun text =>
  let cs := dropBlanks text
  match cs with
  | '{' :: rest => tableTail nested rest
  | '\'' :: rest => (quotedText .single rest).elim (.error ⟨.aType, cs⟩) .ok
  | '"' :: rest => (quotedText .double rest).elim (.error ⟨.aType, cs⟩) .ok
  | _ => word nested cs

/-- A type that nests less than `limit` deep, after blanks. -/
def readWithin : Nat → Reader LuaType
  | 0, cs => .error ⟨.shallowerType, dropBlanks cs⟩
  | limit + 1, cs => do
    let (members, rest) ← items '|' (single (readWithin limit)) cs
    .ok (ofAlternatives members, rest)

/-- Reads a type from the front of a text. -/
def read : Reader LuaType := readWithin depthLimit

/-- Reads a text that holds a type and blanks around it. -/
def readWholeWithin (limit : Nat) (cs : List Char) : Except Stop LuaType := do
  let (type, rest) ← readWithin limit cs
  if dropBlanks rest = [] then .ok type else .error ⟨.endOfType, dropBlanks rest⟩

/-- The type at byte `position` of a text, and the position after it. Nothing when the position is
past the end of the text or inside a character. -/
def parseAt? (text : List Char) (position : Nat) : Option (Except Mismatch (LuaType × Nat)) :=
  (afterBytes? position text).map fun rest =>
    match read rest with
    | .ok (type, rest) => .ok (type, byteLength text - byteLength rest)
    | .error stop => .error (stop.inText text)

/-- The type that a whole text is. -/
def parse (text : String) : Except Mismatch LuaType :=
  (readWholeWithin depthLimit text.toList).mapError (·.inText text.toList)

end Annodoc.LuaType
