import Annodoc.Event
import Mathlib.Data.List.TakeWhile

/-!
# Independence of blocks

A line without the marker ends every block above it, so the part of a source below such a line is
read as if it stood alone, further up. Only its line numbers tell where it stands.
-/

namespace Annodoc
open Comment

/-! ## Further down -/

def FunctionDoc.movedBy (n : Nat) (f : FunctionDoc) : FunctionDoc := { f with line := f.line + n }

def BlockFailure.movedBy (n : Nat) (f : BlockFailure) : BlockFailure :=
  { f with line := f.line + n }

/-- The documentation of a source that stands `n` lines further down. -/
def FileDoc.movedBy (n : Nat) (file : FileDoc) : FileDoc where
  functions := file.functions.map (FunctionDoc.movedBy n)
  classes := file.classes
  aliases := file.aliases
  failures := file.failures.map (BlockFailure.movedBy n)

/-- What one part of a file documents, then what another one does. -/
def FileDoc.followedBy (file below : FileDoc) : FileDoc where
  functions := file.functions ++ below.functions
  classes := file.classes ++ below.classes
  aliases := file.aliases ++ below.aliases
  failures := file.failures ++ below.failures

def Event.movedBy (n : Nat) : Event → Event
  | .omitted line why => .omitted (line + n) why
  | .failed path line message => .failed path (line + n) message
  | event => event

namespace Comment

def Block.movedBy (n : Nat) (b : Block) : Block := { b with start := b.start + n }

def Outcome.movedBy (n : Nat) : Outcome → Outcome
  | .functionDoc f => .functionDoc (f.movedBy n)
  | .classDoc c => .classDoc c
  | .aliasDoc a => .aliasDoc a
  | .failed f => .failed (f.movedBy n)
  | .omitted line why => .omitted (line + n) why

/-- A block has the same outcome wherever it stands. -/
theorem outcome_movedBy (n : Nat) (b : Block) : (b.movedBy n).outcome = b.outcome.movedBy n := by
  have fails (s : Subject) (e : LineMismatch) :
      (b.movedBy n).failure s e = (b.failure s e).movedBy n := by
    simp only [Block.failure, Block.movedBy, BlockFailure.movedBy, Nat.add_right_comm]
  unfold Block.outcome
  simp only [fails]
  simp only [Block.movedBy]
  cases Purpose.ofBlock b.lines b.next with
  | functionNamed name =>
    dsimp only
    cases functionBlock name b.lines <;> rfl
  | someClass =>
    dsimp only
    cases classBlock b.lines <;> rfl
  | someAlias =>
    dsimp only
    cases aliasBlock? b.lines <;> rfl
  | nothing =>
    dsimp only
    cases b.next.bind declaredName? <;> rfl

/-! ## Blocks of a source -/

theorem blocksFrom_add (start n : Nat) (source : List String) :
    blocksFrom (start + n) source = (blocksFrom start source).map (Block.movedBy n) := by
  fun_induction blocksFrom start source with
  | case1 start => rw [blocksFrom, List.map_nil]
  | case2 start line rest marked run below ih =>
    rw [blocksFrom, if_pos marked, List.map_cons, ← ih]
    simp only [Block.movedBy, run, below, Nat.add_right_comm _ n]
  | case3 start line rest unmarked ih =>
    rw [blocksFrom, if_neg unmarked, ← ih, Nat.add_right_comm]

section
variable {x : String} (hx : isMarked x = false)
include hx

theorem takeWhile_append_unmarked (a b : List String) :
    (a ++ x :: b).takeWhile isMarked = a.takeWhile isMarked := by
  induction a with
  | nil => simp [hx]
  | cons line a ih => simp only [List.cons_append, List.takeWhile_cons, ih]

theorem dropWhile_append_unmarked (a b : List String) :
    (a ++ x :: b).dropWhile isMarked = a.dropWhile isMarked ++ x :: b := by
  induction a with
  | nil => simp [hx]
  | cons line a ih =>
    simp only [List.cons_append, List.dropWhile_cons, ih]
    split <;> rfl

/-- A block above the unmarked line `x` ends above it, however the source goes on below. -/
theorem blocksFrom_append (start : Nat) (a b : List String) :
    blocksFrom start (a ++ x :: b) =
      blocksFrom start (a ++ [x]) ++ blocksFrom (start + (a.length + 1)) b := by
  fun_induction blocksFrom start a with
  | case1 start => simp [blocksFrom, hx]
  | case2 start line rest marked run below ih =>
    -- Whatever stands below `x`, the block at `line` has the same lines and the same line below.
    have cut (c : List String) : blocksFrom start (line :: rest ++ x :: c) =
        ⟨start, line :: run, (below ++ [x]).head?⟩ ::
          blocksFrom (start + 1 + run.length) (below ++ x :: c) := by
      have next : (below ++ [x]).head? = (below ++ x :: c).head? := by simp [List.head?_append]
      rw [next, List.cons_append, blocksFrom, if_pos marked, takeWhile_append_unmarked hx,
        dropWhile_append_unmarked hx]
    have length : start + 1 + run.length + (below.length + 1) = start + (rest.length + 1 + 1) := by
      have split : run ++ below = rest := List.takeWhile_append_dropWhile
      rw [← split, List.length_append]
      omega
    rw [cut b, cut [], ih, length, List.cons_append, List.length_cons]
  | case3 start line rest unmarked ih =>
    rw [List.cons_append, List.cons_append, blocksFrom, if_neg unmarked, blocksFrom,
      if_neg unmarked, ih, List.length_cons, Nat.add_assoc start, Nat.add_comm 1]

/-- The outcomes below an unmarked line do not depend on what stands above it, nor the other way
round. -/
theorem outcomes_append (a b : List String) : outcomes (a ++ x :: b) =
    outcomes (a ++ [x]) ++ (outcomes b).map (Outcome.movedBy (a.length + 1)) := by
  rw [outcomes, blocks, blocksFrom_append hx, blocksFrom_add, List.map_append, List.map_map]
  congr 1
  rw [outcomes, List.map_map]
  exact List.map_congr_left fun block _ => outcome_movedBy _ block

end

/-! ## What a file documents -/

theorem fileOfOutcomes_append (above below : List Outcome) :
    fileOfOutcomes (above ++ below) = (fileOfOutcomes above).followedBy (fileOfOutcomes below) := by
  simp only [fileOfOutcomes, FileDoc.followedBy, List.filterMap_append]

theorem fileOfOutcomes_movedBy (n : Nat) (found : List Outcome) :
    fileOfOutcomes (found.map (Outcome.movedBy n)) = (fileOfOutcomes found).movedBy n := by
  simp only [fileOfOutcomes, FileDoc.movedBy, List.filterMap_map, List.map_filterMap]
  congr 2 <;> (funext o; cases o <;> rfl)

end Comment

namespace Event
open Comment

theorem ofOutcomes_append (above below : List Outcome) :
    ofOutcomes (above ++ below) = ofOutcomes above ++ ofOutcomes below := by
  simp only [ofOutcomes, List.filterMap_append, List.map_append]

theorem ofOutcomes_movedBy (n : Nat) (found : List Outcome) :
    ofOutcomes (found.map (Outcome.movedBy n)) = (ofOutcomes found).map (movedBy n) := by
  simp only [ofOutcomes, List.filterMap_map, List.map_filterMap]
  congr 1
  funext o
  cases o <;> rfl

end Event

/-- A source that an unmarked line divides yields what its part down to this line does, and then
what the part below does, with the line numbers moved down. This holds for the blocks' outcomes
in their order, for the documentation and the failures, and for the events. -/
theorem fileOfLines_append (a b : List String) (x : String) (hx : isMarked x = false) :
    outcomes (a ++ x :: b) =
      outcomes (a ++ [x]) ++ (outcomes b).map (Outcome.movedBy (a.length + 1)) ∧
    fileOfLines (a ++ x :: b) =
      (fileOfLines (a ++ [x])).followedBy ((fileOfLines b).movedBy (a.length + 1)) ∧
    Event.ofOutcomes (outcomes (a ++ x :: b)) =
      Event.ofOutcomes (outcomes (a ++ [x])) ++
        (Event.ofOutcomes (outcomes b)).map (Event.movedBy (a.length + 1)) := by
  have divided := outcomes_append hx a b
  refine ⟨divided, ?_, ?_⟩
  · rw [fileOfLines, divided, fileOfOutcomes_append, fileOfOutcomes_movedBy]
    rfl
  · rw [divided, Event.ofOutcomes_append, Event.ofOutcomes_movedBy]

theorem fileOfLines_append_two_failures :
    let a := ["---@class", "---@opaque"]
    let b := ["---@param", "M.f = 1"]
    isMarked "" = false ∧
    fileOfLines (a ++ "" :: b) = (fileOfLines (a ++ [""])).followedBy ((fileOfLines b).movedBy 3) ∧
    (fileOfLines (a ++ "" :: b)).failures.map BlockFailure.line = [1, 4] := by
  intro a b
  have unmarked : isMarked "" = false := by decide
  exact ⟨unmarked, (fileOfLines_append a b "" unmarked).2.1, by decide +kernel⟩

end Annodoc
