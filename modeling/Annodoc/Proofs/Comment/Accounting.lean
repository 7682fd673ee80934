import Annodoc.Proofs.Comment.Places
import Annodoc.Proofs.Comment.Runs
import Mathlib.Data.List.Forall2

/-!
# Every run is accounted for

Every longest run of marked lines has one outcome, and the outcome tells where the run stands. So
what a source documents, its failures and its events together list its runs, each of them once.
-/

namespace Annodoc
open Comment Grammar

namespace Comment

/-- What an outcome says of the block whose outcome it is. -/
inductive Accounts (b : Block) : Outcome → Prop where
  | functionDoc {f : FunctionDoc} {next : String} : f.line = b.start → f.annotation = b.lines →
      b.next = some next → declaredName? next = some f.name →
      functionBlock f.name b.lines = .ok { f with annotation := [], line := 0 } →
      Accounts b (.functionDoc f)
  | classDoc {c : ClassDoc} : classBlock b.lines = .ok c → Accounts b (.classDoc c)
  | aliasDoc {a : AliasDoc} : aliasBlock? b.lines = some a → Accounts b (.aliasDoc a)
  | failed {f : BlockFailure} : f.lines = b.lines ++ b.next.toList → b.start ≤ f.line →
      f.line < b.start + f.lines.length → Accounts b (.failed f)
  | omitted (why : Omission) : Accounts b (.omitted b.start why)

theorem functionBlock_eq_ok {limit : Nat} {name : String} {lines : List String} {f : FunctionDoc}
    (h : functionBlockWithin limit name lines = .ok f) :
    f.name = name ∧ f.annotation = [] ∧ f.line = 0 := by
  simp only [functionBlockWithin, bind_eq_ok_iff] at h
  obtain ⟨cs, -, h⟩ := h
  cases h
  exact ⟨rfl, rfl, rfl⟩

/-- A function is documented only where the line below the block declares it. -/
theorem next_of_functionNamed {lines : List String} {next : Option String} {name : String}
    (h : Purpose.ofBlock lines next = .functionNamed name) :
    ∃ line, next = some line ∧ declaredName? line = some name := by
  simp only [Purpose.ofBlock] at h
  split at h
  · next declared found =>
    split at h
    · obtain rfl : declared = name := by simpa using h
      exact Option.bind_eq_some_iff.mp found
    · split_ifs at h
  · split_ifs at h

theorem tagged_of_someClass {lines : List String} {next : Option String}
    (h : Purpose.ofBlock lines next = .someClass) : .classHeader ∈ blockTags lines := by
  by_contra untagged
  simp only [Purpose.ofBlock, if_neg untagged] at h
  split at h <;> split_ifs at h

theorem Block.outcome_accounts (b : Block) : Accounts b b.outcome := by
  simp only [Block.outcome]
  split
  · next name purpose =>
    obtain ⟨next, hn, declared⟩ := next_of_functionNamed purpose
    split
    · next f h =>
      obtain ⟨rfl, noLines, noPlace⟩ := functionBlock_eq_ok h
      refine .functionDoc rfl rfl hn declared ?_
      rw [h, ← noLines, ← noPlace]
    · next e h =>
      have place : e.line ≤ b.lines.length := functionBlock_line_le h
      have length : (b.lines ++ b.next.toList).length = b.lines.length + 1 := by simp [hn]
      refine .failed rfl (Nat.le_add_right _ _) ?_
      simp only [Block.failure, length]
      omega
  · next purpose =>
    split
    · next c h => exact .classDoc h
    · next e h =>
      have place : e.line < b.lines.length := classBlock_line_lt (tagged_of_someClass purpose) h
      refine .failed rfl (Nat.le_add_right _ _) ?_
      simp only [Block.failure, List.length_append]
      omega
  · split
    · next a h => exact .aliasDoc h
    · exact .omitted .noValues
  · split
    · next name h => exact .omitted (.undocumented name)
    · exact .omitted .noDeclaration

theorem outcomes_account (source : List String) :
    List.Forall₂ Accounts (blocks source) (outcomes source) := by
  rw [outcomes, List.forall₂_map_right_iff]
  exact List.forall₂_same.mpr fun b _ => b.outcome_accounts

/-- An outcome counts in one of the five lists, and only there. -/
theorem length_filterMap_outcomes (found : List Outcome) :
    (found.filterMap Outcome.function?).length + (found.filterMap Outcome.class?).length +
      (found.filterMap Outcome.alias?).length + (found.filterMap Outcome.failure?).length +
      (found.filterMap Outcome.omission?).length = found.length := by
  induction found with
  | nil => rfl
  | cons o found ih =>
    rw [List.length_cons, ← ih]
    cases o <;>
      simp only [Outcome.function?, Outcome.class?, Outcome.alias?, Outcome.failure?,
        Outcome.omission?, List.filterMap_cons, List.length_cons] <;> omega

theorem exists_block_of_mem {source : List String} {α : Type} {part : Outcome → Option α} {x : α}
    (h : x ∈ (outcomes source).filterMap part) :
    ∃ (b : Block) (o : Outcome), b.IsRunOf source ∧ Accounts b o ∧ part o = some x := by
  obtain ⟨o, ho, hx⟩ := List.mem_filterMap.mp h
  obtain ⟨b, hb, rfl⟩ := List.mem_map.mp ho
  exact ⟨b, b.outcome, mem_blocks_iff.mp hb, b.outcome_accounts, hx⟩

end Comment

/-- The blocks of a source are its longest runs, from above to below. Each has one outcome, and the
five lists hold the outcomes in the order of the runs: so they are as many as the runs. A function
has the place and the lines of its run, and the name that the line below declares. A failure
has the lines of its run and the line below, and points to one of these. -/
theorem fileOfLines_accounts (source : List String) :
    (∀ b, b ∈ blocks source ↔ b.IsRunOf source) ∧
    (blocks source).Pairwise (fun a b => a.start + a.lines.length < b.start) ∧
    (∃ found : List Outcome, List.Forall₂ Accounts (blocks source) found ∧
      fileOfLines source = ⟨found.filterMap Outcome.function?, found.filterMap Outcome.class?,
        found.filterMap Outcome.alias?, found.filterMap Outcome.failure?⟩ ∧
      Event.ofOutcomes (outcomes source) =
        (found.filterMap Outcome.omission?).map fun (line, why) => .omitted line why) ∧
    (fileOfLines source).functions.length + (fileOfLines source).classes.length +
      (fileOfLines source).aliases.length + (fileOfLines source).failures.length +
      (Event.ofOutcomes (outcomes source)).length = (blocks source).length ∧
    (∀ f ∈ (fileOfLines source).functions, ∃ (b : Block) (next : String), b.IsRunOf source ∧
      f.line = b.start ∧ f.annotation = b.lines ∧ b.next = some next ∧
      declaredName? next = some f.name) ∧
    ∀ e ∈ (fileOfLines source).failures, ∃ b : Block, b.IsRunOf source ∧
      e.lines = b.lines ++ b.next.toList ∧ b.start ≤ e.line ∧
      e.line < b.start + e.lines.length := by
  refine ⟨fun b => mem_blocks_iff, pairwise_blocksFrom 1 source,
    ⟨outcomes source, outcomes_account source, rfl, rfl⟩, ?_, fun f hf => ?_, fun e he => ?_⟩
  · have total := length_filterMap_outcomes (outcomes source)
    rw [← (outcomes_account source).length_eq] at total
    rw [Event.ofOutcomes, List.length_map]
    exact total
  · obtain ⟨b, o, run, accounts, ho⟩ := exists_block_of_mem hf
    cases accounts with
    | functionDoc line lines next declared =>
      obtain rfl := Option.some.inj ho
      exact ⟨b, _, run, line, lines, next, declared⟩
    | _ => cases ho
  · obtain ⟨b, o, run, accounts, ho⟩ := exists_block_of_mem he
    cases accounts with
    | failed lines first last =>
      obtain rfl := Option.some.inj ho
      exact ⟨b, run, lines, first, last⟩
    | _ => cases ho

theorem fileOfLines_accounts_missing_text :
    let source := ["---@param a nil", "M.f = 1", "---@return nil", "---@example", "M.g = 1"]
    (∃ f ∈ (fileOfLines source).functions, f.line = 1 ∧ ∃ (b : Block) (next : String),
      b.IsRunOf source ∧ f.line = b.start ∧ f.annotation = b.lines ∧ b.next = some next ∧
      declaredName? next = some f.name) ∧
    ∃ e ∈ (fileOfLines source).failures, e.line = 5 ∧ ∃ b : Block, b.IsRunOf source ∧
      e.lines = b.lines ++ b.next.toList ∧ b.start ≤ e.line ∧
      e.line < b.start + e.lines.length := by
  intro source
  obtain ⟨-, -, -, -, functions, failures⟩ := fileOfLines_accounts source
  have one : (fileOfLines source).functions.map FunctionDoc.line = [1] := by decide +kernel
  have five : (fileOfLines source).failures.map BlockFailure.line = [5] := by decide +kernel
  obtain ⟨f, hf, place⟩ : ∃ f ∈ (fileOfLines source).functions, f.line = 1 :=
    List.mem_map.mp (one ▸ List.mem_cons_self)
  obtain ⟨e, he, past⟩ : ∃ e ∈ (fileOfLines source).failures, e.line = 5 :=
    List.mem_map.mp (five ▸ List.mem_cons_self)
  exact ⟨⟨f, hf, place, functions f hf⟩, e, he, past, failures e he⟩

end Annodoc
