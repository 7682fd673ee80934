import Annodoc.Comment.Outcome
import Annodoc.Proofs.Grammar.Token

/-!
# Where blocks fail

A block fails at one of its lines. Only a clause whose text is missing may fail right below the
last of them, and a block with a header of a class never does.
-/

namespace Annodoc.Comment
open Grammar
open LineMismatch (atLine)

variable {limit index : Nat} {line next text : List Char} {lines block : List (List Char)}
  {e : LineMismatch}

theorem line_of_atLine_eq_error {α : Type} {reading : Except Stop α}
    (h : atLine index line reading = .error e) : e.line = index := by
  obtain ⟨stop, -, rfl⟩ := mapError_eq_error_iff.mp h
  rfl

/-! ## Function blocks -/

theorem subparams_line_lt (h : subparams limit index lines = .error e) :
    e.line < index + lines.length := by
  induction lines generalizing index with
  | nil => cases h
  | cons line lines ih =>
    simp only [subparams, bind_eq_error_iff] at h
    rw [List.length_cons]
    rcases h with h | ⟨p, -, h | ⟨ps, -, h⟩⟩
    · have := line_of_atLine_eq_error h
      omega
    · have := ih h
      omega
    · cases h

theorem bodyText_line {indented : List (List Char)} (h : bodyText index indented next = .error e) :
    e.line = index := by
  rw [bodyText] at h
  split at h
  · exact line_of_atLine_eq_error h
  · cases h

theorem clause_line_le {tag : Tag} {indented : List (List Char)}
    (h : clause limit index line tag text indented next = .error e) :
    e.line ≤ index + 1 + indented.length := by
  cases tag with
  | param =>
    simp only [clause, bind_eq_error_iff] at h
    rcases h with h | ⟨p, -, h | ⟨subs, -, h⟩⟩
    · have := line_of_atLine_eq_error h
      omega
    · have := subparams_line_lt h
      omega
    · cases h
  | returns =>
    simp only [clause, bind_eq_error_iff] at h
    rcases h with h | ⟨⟨t, rest⟩, -, h⟩
    · have := line_of_atLine_eq_error h
      omega
    · cases h
  | privateMark | deprecatedMark =>
    simp only [clause, bind_eq_error_iff] at h
    rcases h with h | ⟨-, -, h⟩
    · have := line_of_atLine_eq_error h
      omega
    · cases h
  | sample | note =>
    -- A missing text is missed on the line below the tag, which the block may not have.
    simp only [clause, bind_eq_error_iff] at h
    rcases h with h | ⟨-, -, h | ⟨text, -, h⟩⟩
    · have := line_of_atLine_eq_error h
      omega
    · have := bodyText_line h
      omega
    · cases h
  | _ =>
    have := line_of_atLine_eq_error h
    omega

theorem clauses_line_le (h : clauses limit index block = .error e) :
    e.line ≤ index + block.length := by
  fun_induction clauses limit index block with
  | case1 => cases h
  | case2 index line rest blank ih =>
    have := ih h
    rw [List.length_cons]
    omega
  | case3 index line rest blank =>
    have := line_of_atLine_eq_error h
    omega
  | case4 index line rest blank tag text split indented ih =>
    have fits : indented.length ≤ rest.length := by
      simp only [indented]
      split
      · exact (List.takeWhile_prefix _).length_le
      · exact Nat.zero_le _
    simp only [bind_eq_error_iff] at h
    rw [List.length_cons]
    rcases h with h | ⟨c, -, h | ⟨cs, -, h⟩⟩
    · have := clause_line_le h
      omega
    · have := ih h
      rw [List.length_drop] at this
      omega
    · cases h

/-- The summary and the lines above it are counted, and the other lines are left. -/
theorem length_summaryAndClauses (block : List (List Char)) :
    (summaryAndClauses block).2.1 + (summaryAndClauses block).2.2.length = block.length := by
  have skipped : (block.takeWhile Text.isEmptyText).length ≤ block.length :=
    (List.takeWhile_prefix _).length_le
  rw [summaryAndClauses]
  cases eq : block.drop (block.takeWhile Text.isEmptyText).length with
  | nil =>
    have := List.drop_eq_nil_iff.mp eq
    simp only [List.length_nil]
    omega
  | cons line rest =>
    have length := congrArg List.length eq
    rw [List.length_drop, List.length_cons] at length
    dsimp only
    split <;> simp only [List.length_cons] <;> omega

theorem functionBlock_line_le {name : String} {lines : List String}
    (h : functionBlockWithin limit name lines = .error e) : e.line ≤ lines.length := by
  simp only [functionBlockWithin, bind_eq_error_iff] at h
  rcases h with h | ⟨cs, -, h⟩
  · have := clauses_line_le h
    rwa [length_summaryAndClauses, List.length_map] at this
  · cases h

/-! ## Class blocks -/

theorem members_line_lt {markAllowed : Bool}
    (h : members limit index markAllowed lines = .error e) : e.line < index + lines.length := by
  induction lines generalizing index markAllowed with
  | nil => cases h
  | cons line lines ih =>
    rw [List.length_cons]
    have here : ∀ {α : Type} {reading : Except Stop α}, atLine index line reading = .error e →
        e.line < index + (lines.length + 1) := by
      intro α reading h
      have := line_of_atLine_eq_error h
      omega
    have below : ∀ {allowed : Bool}, members limit (index + 1) allowed lines = .error e →
        e.line < index + (lines.length + 1) := by
      intro allowed h
      have := ih h
      omega
    simp only [members] at h
    split at h
    · split at h
      · simp only [bind_eq_error_iff] at h
        rcases h with h | ⟨-, -, h | ⟨found, -, h⟩⟩
        · exact here h
        · exact below h
        · cases h
      · exact here h
    · simp only [bind_eq_error_iff] at h
      rcases h with h | ⟨f, -, h | ⟨found, -, h⟩⟩
      · exact here h
      · exact below h
      · cases h
    · split at h
      · exact below h
      · exact here h
    · exact here h

/-- The description of a class ends above a line of the block, if any line has a tag. -/
theorem length_takeWhile_untagged {lines : List String} {tag : Tag} (h : tag ∈ blockTags lines) :
    ((lines.map body).takeWhile fun line => (tag? line).isNone).length < lines.length := by
  obtain ⟨line, mem, eq⟩ := List.mem_filterMap.mp h
  by_contra long
  have le := (List.takeWhile_prefix (l := lines.map body) fun line => (tag? line).isNone).length_le
  rw [List.length_map] at le
  have all : (lines.map body).takeWhile (fun line => (tag? line).isNone) = lines.map body :=
    (List.takeWhile_prefix _).eq_of_length (by rw [List.length_map]; omega)
  have untagged := List.mem_takeWhile_imp (all ▸ List.mem_map_of_mem mem)
  simp [eq] at untagged

theorem classBlock_line_lt {lines : List String} (tagged : .classHeader ∈ blockTags lines)
    (h : classBlockWithin limit lines = .error e) : e.line < lines.length := by
  have header := length_takeWhile_untagged tagged
  simp only [classBlockWithin] at h
  split at h
  · simp only [bind_eq_error_iff] at h
    rcases h with h | ⟨head, -, h | ⟨⟨isOpaque, fields⟩, -, h⟩⟩
    · rwa [line_of_atLine_eq_error h]
    · have := members_line_lt h
      rw [List.length_drop, List.length_map] at this
      omega
    · split at h
      · rwa [line_of_atLine_eq_error h]
      · cases h
  · rwa [line_of_atLine_eq_error h]

end Annodoc.Comment
