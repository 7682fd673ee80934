import Annodoc.Comment.AliasBlock
import Annodoc.Comment.ClassBlock
import Annodoc.Comment.Purpose

/-!
# Blocks and their outcomes

A source falls into comment blocks, the longest runs of marked lines, and every block has one
outcome. Blocks do not depend on each other, so one that fails leaves the others as they are.
-/

namespace Annodoc.Comment

/-- A run of marked lines: the number of the first one, counted from 1, the lines, and the line
below them. -/
structure Block where
  start : Nat
  lines : List String
  next : Option String
  deriving DecidableEq, Repr

/-- The blocks of a source whose first line has number `start`. -/
def blocksFrom (start : Nat) (source : List String) : List Block :=
  match source with
  | [] => []
  | line :: rest =>
    if isMarked line then
      let run := rest.takeWhile isMarked
      let below := rest.dropWhile isMarked
      ⟨start, line :: run, below.head?⟩ :: blocksFrom (start + 1 + run.length) below
    else blocksFrom (start + 1) rest
termination_by source.length
decreasing_by
  · exact Nat.lt_succ_of_le (List.dropWhile_suffix isMarked).length_le
  · simp

def blocks (source : List String) : List Block := blocksFrom 1 source

/-- Why a block documents nothing although it does not fail. -/
inductive Omission where
  /-- An alias whose values do not fit. -/
  | noValues
  /-- A function with tags, of which none is for a parameter or a result. -/
  | undocumented (function : String)
  | noDeclaration
  deriving DecidableEq, Repr

inductive Outcome where
  | functionDoc (f : FunctionDoc)
  | classDoc (c : ClassDoc)
  | aliasDoc (a : AliasDoc)
  | failed (f : BlockFailure)
  | omitted (line : Nat) (why : Omission)
  deriving Repr

namespace Outcome

def function? : Outcome → Option FunctionDoc
  | .functionDoc f => some f
  | _ => none

def class? : Outcome → Option ClassDoc
  | .classDoc c => some c
  | _ => none

def alias? : Outcome → Option AliasDoc
  | .aliasDoc a => some a
  | _ => none

def failure? : Outcome → Option BlockFailure
  | .failed f => some f
  | _ => none

def omission? : Outcome → Option (Nat × Omission)
  | .omitted line why => some (line, why)
  | _ => none

end Outcome

/-- The failure of a block, with the line below it if there is one. -/
def Block.failure (b : Block) (subject : Subject) (e : LineMismatch) : BlockFailure :=
  ⟨subject, e.error, b.start + e.line, b.lines ++ b.next.toList⟩

def Block.outcome (b : Block) : Outcome :=
  match Purpose.ofBlock b.lines b.next with
  | .functionNamed name =>
    match functionBlock name b.lines with
    | .ok f => .functionDoc { f with annotation := b.lines, line := b.start }
    | .error e => .failed (b.failure (.functionNamed name) e)
  | .someClass =>
    match classBlock b.lines with
    | .ok c => .classDoc c
    | .error e => .failed (b.failure .someClass e)
  | .someAlias =>
    match aliasBlock? b.lines with
    | some a => .aliasDoc a
    | none => .omitted b.start .noValues
  | .nothing =>
    match b.next.bind declaredName? with
    | some name => .omitted b.start (.undocumented name)
    | none => .omitted b.start .noDeclaration

def outcomes (source : List String) : List Outcome := (blocks source).map Block.outcome

/-- What the outcomes of a file's blocks document, in the order of the blocks. -/
def fileOfOutcomes (outcomes : List Outcome) : FileDoc where
  functions := outcomes.filterMap Outcome.function?
  classes := outcomes.filterMap Outcome.class?
  aliases := outcomes.filterMap Outcome.alias?
  failures := outcomes.filterMap Outcome.failure?

/-- The documentation in a source, line by line. -/
def fileOfLines (source : List String) : FileDoc := fileOfOutcomes (outcomes source)

def sourceLines (text : List Char) : List String := (Text.lines text).map String.ofList

/-- The documentation in the text of a source. -/
def fileOfText (text : List Char) : FileDoc := fileOfLines (sourceLines text)

end Annodoc.Comment
