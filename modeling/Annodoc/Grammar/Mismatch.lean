import Annodoc.Text.Blank
import Annodoc.Text.Bytes
import Annodoc.Text.Quoted

/-!
# Mismatches

How reading fails: what was wanted, and where. Inside the grammar a place is the text that is left
from there; a reported failure names it by its byte offset.
-/

namespace Annodoc

/-- What the grammar wanted to see. -/
inductive Expectation where
  | aType
  | shallowerType
  | endOfType
  | aName
  | token (c : Char)
  | aTag
  | functionTag
  | endOfLine
  | indentedLine
  | classTag
  | className
  | parentName
  | fieldTag
  | someField
  deriving DecidableEq, Repr

def Expectation.text : Expectation → String
  | .aType => "a type"
  | .shallowerType => "a shallower type"
  | .endOfType => "end of type"
  | .aName => "a name"
  | .token c => "`" ++ String.singleton c ++ "`"
  | .aTag => "a tag"
  | .functionTag => "`@param`, `@return`, `@private`, `@deprecated`, `@example` or `@note`"
  | .endOfLine => "end of line"
  | .indentedLine => "an indented line"
  | .classTag => "`@class`"
  | .className => "a class name"
  | .parentName => "a parent class name"
  | .fieldTag => "`@field`"
  | .someField => "at least one `@field`"

/-- What was there instead: no more than white space, or a text, of which sixteen characters are
kept. -/
inductive Found where
  | endOfLine
  | snippet (text : List Char)
  deriving DecidableEq, Repr

def Found.ofRest (rest : List Char) : Found :=
  if Text.isEmptyText rest then .endOfLine else .snippet (rest.take 16)

def Found.text : Found → String
  | .endOfLine => "end of line"
  | .snippet cs => Text.quoted cs

/-- A text that does not fit the grammar. The position is a byte offset into it. -/
structure Mismatch where
  position : Nat
  expected : Expectation
  found : Found
  deriving DecidableEq, Repr

def Mismatch.message (e : Mismatch) : String :=
  "expected " ++ e.expected.text ++ " at offset " ++ toString e.position ++
    ", found " ++ e.found.text

/-- A failure inside a comment block. The line counts from 0 within the block. -/
structure LineMismatch where
  line : Nat
  error : Mismatch
  deriving DecidableEq, Repr

def LineMismatch.message (e : LineMismatch) : String :=
  e.error.message ++ " (block line " ++ toString (e.line + 1) ++ ")"

/-- A stop within a text: what was wanted, and the text that is left from there. -/
structure Stop where
  expected : Expectation
  rest : List Char
  deriving DecidableEq, Repr

/-- The failure that a stop within `text` is. -/
def Stop.inText (text : List Char) (s : Stop) : Mismatch where
  position := Text.byteLength text - Text.byteLength s.rest
  expected := s.expected
  found := .ofRest s.rest

theorem Stop.position_inText (before : List Char) (s : Stop) :
    (s.inText (before ++ s.rest)).position = Text.byteLength before := by
  simp [Stop.inText]

/-- A reading of line `index` of a block; a stop fails the block there. -/
def LineMismatch.atLine {α : Type} (index : Nat) (line : List Char) (reading : Except Stop α) :
    Except LineMismatch α :=
  reading.mapError fun stop => ⟨index, stop.inText line⟩

/-- A reader takes a value from the front of a text and leaves the rest. -/
abbrev Reader (α : Type) := List Char → Except Stop (α × List Char)

end Annodoc
