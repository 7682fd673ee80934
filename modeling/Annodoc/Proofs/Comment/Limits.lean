import Annodoc.Proofs.Comment.OffsetBlocks
import Annodoc.Proofs.LuaType.Limits

/-!
# Function blocks under a limit

A block of a function is refused where a type in it is too deep, and never read as another function.
The line that is refused is the first one on which the two limits differ.
-/

namespace Annodoc
open Grammar Text
open LineMismatch (atLine)

theorem SameUnless.atLine {α : Type} {x y : Except Stop α} (h : SameUnless Stop.TooDeep x y)
    (index : Nat) (line : List Char) :
    SameUnless LineMismatch.TooDeep (LineMismatch.atLine index line x)
      (LineMismatch.atLine index line y) :=
  h.mapError fun _ deep => deep

namespace Comment
open LuaType (readWithin_refuses)
variable {n m : Nat} {line text next : List Char}

theorem parameter_refuses (le : n ≤ m) (name : Reader String) (cs : List Char) :
    SameUnless Stop.TooDeep (parameter n name cs) (parameter m name cs) := by
  apply (Refuses.self name _).bind
  rintro ⟨name, rest⟩
  apply (readWithin_refuses le _).bind
  rintro ⟨type, rest⟩
  exact .same _

theorem subparams_refuses (le : n ≤ m) (index : Nat) (lines : List (List Char)) :
    SameUnless LineMismatch.TooDeep (subparams n index lines) (subparams m index lines) := by
  induction lines generalizing index with
  | nil => exact .same _
  | cons line lines ih =>
    apply ((parameter_refuses le Grammar.name line).atLine index line).bind
    intro p
    exact (ih (index + 1)).bind fun ps => .same _

/-- Only parameters and results hold types; every other clause is the same under all limits. -/
theorem clause_refuses (le : n ≤ m) (index : Nat) (tag : Tag) (indented : List (List Char)) :
    SameUnless LineMismatch.TooDeep (clause n index line tag text indented next)
      (clause m index line tag text indented next) := by
  cases tag with
  | param =>
    apply ((parameter_refuses le LuaType.paramName text).atLine index line).bind
    intro p
    exact (subparams_refuses le (index + 1) indented).bind fun subs => .same _
  | returns =>
    apply ((readWithin_refuses le text).atLine index line).bind
    rintro ⟨type, rest⟩
    exact .same _
  | _ => exact .same _

theorem clauses_refuses (le : n ≤ m) (index : Nat) (block : List (List Char)) :
    SameUnless LineMismatch.TooDeep (clauses n index block) (clauses m index block) := by
  fun_induction clauses n index block with
  | case1 index =>
    rw [clauses]
    exact .same _
  | case2 index line rest empty ih =>
    rw [clauses, if_pos empty]
    exact ih
  | case3 index line rest inked untagged =>
    rw [clauses, if_neg inked, untagged]
    exact .same _
  | case4 index line rest inked tag text split indented ih =>
    rw [clauses, if_neg inked, split]
    apply (clause_refuses le index tag indented).bind
    intro c
    exact ih.bind fun cs => .same _

theorem functionBlockWithin_refuses (le : n ≤ m) (name : String) (lines : List String) :
    SameUnless LineMismatch.TooDeep (functionBlockWithin n name lines)
      (functionBlockWithin m name lines) :=
  (clauses_refuses le _ _).bind fun _ => .same _

end Comment

open Comment LuaType

/-- Of two limits, the lower one gives the answer of the higher one, or it refuses a type as too deep.
This holds of a type at any place of a text, of a whole text and of the block of a function. The rules
of the grammar that are tried one after the other at an offset answer in the same way. -/
theorem lower_limit_refuses {n m : Nat} (le : n ≤ m) :
    (∀ text position, parseAtWithin? n text position = parseAtWithin? m text position ∨
      ∃ e, parseAtWithin? n text position = some (.error e) ∧ e.expected = .shallowerType) ∧
    (∀ text, parseWithin n text = parseWithin m text ∨
      ∃ e, parseWithin n text = .error e ∧ e.expected = .shallowerType) ∧
    (∀ name lines, functionBlockWithin n name lines = functionBlockWithin m name lines ∨
      ∃ e, functionBlockWithin n name lines = .error e ∧ e.error.expected = .shallowerType) ∧
    (∀ limit text position,
      (AtOffset.typeWithin text limit position).run = parseAtWithin? limit text position) ∧
    (∀ limit name lines, (AtOffset.functionBlock limit name lines).run =
      some (functionBlockWithin limit name lines)) ∧
    parseAt? = parseAtWithin? depthLimit ∧ parse = parseWithin depthLimit ∧
    functionBlock = functionBlockWithin depthLimit := by
  refine ⟨parseAtWithin?_refuses le, fun text => ?_, fun name lines => ?_, AtOffset.typeWithin_eq,
    fun limit name lines => ?_, rfl, rfl, rfl⟩
  · exact (parseWithin_refuses le text).eq_or
  · exact (functionBlockWithin_refuses le name lines).eq_or
  · rw [AtOffset.functionBlock_eq]
    rfl

/-- A table inside a map is three levels deep. With two of them neither the map nor the block that
holds it is read, and the keyword in front does not stand in for the map. -/
theorem lower_limit_refuses_map :
    let text := "table<string, \x7ba: nil\x7d>"
    let lines := ["---@param a string é", "---@return " ++ text]
    2 ≤ 3 ∧
    (∃ e, parseAtWithin? 2 text.toList 0 = some (.error e) ∧ e.expected = .shallowerType) ∧
    (∃ e, parseWithin 2 text = .error e ∧ e.expected = .shallowerType) ∧
    ∃ e, functionBlockWithin 2 "M.f" lines = .error e ∧ e.error.expected = .shallowerType := by
  intro text lines
  obtain ⟨places, whole, blocks, -⟩ := lower_limit_refuses (show 2 ≤ 3 by decide)
  have place : (parseAtWithin? 2 text.toList 0).map Except.isOk ≠
      (parseAtWithin? 3 text.toList 0).map Except.isOk := by decide +kernel
  have types : (parseWithin 2 text).isOk ≠ (parseWithin 3 text).isOk := by decide +kernel
  have block : (functionBlockWithin 2 "M.f" lines).isOk ≠
      (functionBlockWithin 3 "M.f" lines).isOk := by decide +kernel
  refine ⟨by decide, ?_, ?_, ?_⟩
  · exact (places text.toList 0).resolve_left fun same => place (congrArg _ same)
  · exact (whole text).resolve_left fun same => types (congrArg _ same)
  · exact (blocks "M.f" lines).resolve_left fun same => block (congrArg _ same)

end Annodoc
