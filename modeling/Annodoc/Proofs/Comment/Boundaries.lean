import Annodoc.Proofs.Comment.Accounting
import Annodoc.Proofs.Comment.OffsetBlocks
import Annodoc.Proofs.Comment.Places

/-!
# Failures point between characters

Whatever the text of a source is, it is read without a cut inside a character or past an end, and
every offset that is reported lies between two characters of the line that it is about.
-/

namespace Annodoc
open Text Grammar

namespace Comment
open LineMismatch (atLine)
open AtOffset (slotName_follows slotName_follows_paramName typeWithin_follows nothingMore_follows
  parameter_follows header_follows field_follows drop_summaryAndClauses)

variable {limit index : Nat} {line text next : List Char} {lines block : List (List Char)}
  {e : LineMismatch}

/-- The failure is about a line of the block, the first of which has the number `index`, or about the
empty text where there is no such line. -/
def PointsInto (index : Nat) (block : List (List Char)) (e : LineMismatch) : Prop :=
  index ≤ e.line ∧ IsBoundary (block[e.line - index]?.getD []) e.error.position

namespace PointsInto

theorem here (at_ : e.line = index) (fits : IsBoundary line e.error.position) :
    PointsInto index (line :: lines) e := by
  refine ⟨Nat.le_of_eq at_.symm, ?_⟩
  rw [at_, Nat.sub_self]
  exact fits

theorem drop {n : Nat} (h : PointsInto (index + n) (block.drop n) e) :
    PointsInto index block e := by
  obtain ⟨after, fits⟩ := h
  refine ⟨by omega, ?_⟩
  rw [List.getElem?_drop] at fits
  have same : n + (e.line - (index + n)) = e.line - index := by omega
  rwa [same] at fits

theorem below (h : PointsInto (index + 1) lines e) : PointsInto index (line :: lines) e :=
  drop (n := 1) h

theorem of_initial (h : PointsInto index lines e) (initial : lines <+: block)
    (inside : e.line < index + lines.length) : PointsInto index block e := by
  obtain ⟨others, rfl⟩ := initial
  refine ⟨h.1, ?_⟩
  have := h.1
  rw [List.getElem?_append_left (by omega)]
  exact h.2

end PointsInto

theorem atLine_points {α β : Type} {left : α → List Char} {at_ : α → β} {place : List Char}
    {reading : Except Stop α} {cutting : Cutting Mismatch β}
    (follows : Follows line place left at_ reading cutting) (inside : place <:+ line)
    (h : atLine index line reading = .error e) :
    e.line = index ∧ IsBoundary line e.error.position := by
  obtain ⟨s, stopped, rfl⟩ := mapError_eq_error_iff.mp h
  exact ⟨rfl, isBoundary_offset ((follows.stop_suffix s stopped).trans inside)⟩

/-- A reading of the first line points into the block. -/
theorem points_here {α β : Type} {left : α → List Char} {at_ : α → β} {place : List Char}
    {reading : Except Stop α} {cutting : Cutting Mismatch β}
    (follows : Follows line place left at_ reading cutting) (inside : place <:+ line)
    (h : atLine index line reading = .error e) : PointsInto index (line :: lines) e :=
  .here (atLine_points follows inside h).1 (atLine_points follows inside h).2

/-- A line of the wrong kind. -/
theorem points_stop {α : Type} {s : Stop} (inside : s.rest <:+ line)
    (h : atLine index line (.error s : Except Stop α) = .error e) :
    PointsInto index (line :: lines) e := by
  have follows : Follows line line (fun _ : α => []) id (.error s) _ := .error inside
  exact points_here follows List.suffix_rfl h

/-! ## Function blocks -/

theorem subparams_points (h : subparams limit index lines = .error e) :
    PointsInto index lines e := by
  induction lines generalizing index with
  | nil => cases h
  | cons line lines ih =>
    rcases bind_eq_error_iff.mp h with h | ⟨p, -, h⟩
    · exact points_here (parameter_follows limit slotName_follows List.suffix_rfl) List.suffix_rfl h
    rcases bind_eq_error_iff.mp h with h | ⟨ps, -, h⟩
    · exact (ih h).below
    · cases h

theorem bodyText_points {indented : List (List Char)}
    (h : bodyText index indented (lines.head?.getD []) = .error e) : PointsInto index lines e := by
  rw [bodyText] at h
  split at h
  · have place := line_of_atLine_eq_error h
    have follows : Follows (lines.head?.getD []) (lines.head?.getD []) (fun _ : String => []) id
        (.error ⟨.indentedLine, lines.head?.getD []⟩) _ := .error List.suffix_rfl
    obtain ⟨-, fits⟩ := atLine_points follows List.suffix_rfl h
    refine ⟨Nat.le_of_eq place.symm, ?_⟩
    rwa [place, Nat.sub_self, ← List.head?_eq_getElem?]
  · cases h

theorem clause_points {tag : Tag} {indented : List (List Char)} (after : text <:+ line)
    (owned : indented <+: lines)
    (h : clause limit index line tag text indented (lines.head?.getD []) = .error e) :
    PointsInto index (line :: lines) e := by
  cases tag with
  | param =>
    rcases bind_eq_error_iff.mp h with h | ⟨p, -, h⟩
    · exact points_here (parameter_follows limit slotName_follows_paramName after) after h
    rcases bind_eq_error_iff.mp h with h | ⟨subs, -, h⟩
    · exact ((subparams_points h).of_initial owned (subparams_line_lt h)).below
    · cases h
  | returns =>
    rcases bind_eq_error_iff.mp h with h | ⟨p, -, h⟩
    · exact points_here (typeWithin_follows limit after) ((dropBlanks_suffix text).trans after) h
    · cases h
  | privateMark | deprecatedMark =>
    rcases bind_eq_error_iff.mp h with h | ⟨p, -, h⟩
    · exact points_here (nothingMore_follows after) after h
    · cases h
  | sample | note =>
    rcases bind_eq_error_iff.mp h with h | ⟨p, -, h⟩
    · exact points_here (nothingMore_follows after) after h
    rcases bind_eq_error_iff.mp h with h | ⟨body, -, h⟩
    · exact (bodyText_points h).below
    · cases h
  | _ => exact points_stop (List.dropWhile_suffix _) h

theorem clauses_points (h : clauses limit index block = .error e) : PointsInto index block e := by
  fun_induction clauses limit index block with
  | case1 => cases h
  | case2 index line rest blank ih => exact (ih h).below
  | case3 index line rest => exact points_stop List.suffix_rfl h
  | case4 index line rest inked tag text split indented ih =>
    rcases bind_eq_error_iff.mp h with h | ⟨c, -, h⟩
    · have owned : indented <+: rest := by
        simp only [indented]
        split
        · exact List.takeWhile_prefix _
        · exact List.nil_prefix
      exact clause_points (splitTag_suffix split) owned h
    rcases bind_eq_error_iff.mp h with h | ⟨cs, -, h⟩
    · exact ((ih h).drop).below
    · cases h

theorem functionBlock_points {name : String} {lines : List String}
    (h : functionBlockWithin limit name lines = .error e) : PointsInto 0 (lines.map body) e := by
  simp only [functionBlockWithin, bind_eq_error_iff] at h
  rcases h with h | ⟨cs, -, h⟩
  · have points := clauses_points h
    rw [← drop_summaryAndClauses] at points
    exact .drop (by rwa [Nat.zero_add])
  · cases h

/-! ## Class blocks -/

theorem members_points {markAllowed : Bool}
    (h : members limit index markAllowed lines = .error e) : PointsInto index lines e := by
  induction lines generalizing index markAllowed with
  | nil => cases h
  | cons line lines ih =>
    have misplaced {α : Type} (h : atLine index line
        (.error ⟨.fieldTag, trimStart line⟩ : Except Stop α) = .error e) :
        PointsInto index (line :: lines) e := points_stop (List.dropWhile_suffix _) h
    rw [members] at h
    split at h
    · next text split =>
      split at h
      · rcases bind_eq_error_iff.mp h with h | ⟨_, -, h⟩
        · exact points_here (nothingMore_follows (splitTag_suffix split)) (splitTag_suffix split) h
        rcases bind_eq_error_iff.mp h with h | ⟨found, -, h⟩
        · exact (ih h).below
        · cases h
      · exact misplaced h
    · next text split =>
      rcases bind_eq_error_iff.mp h with h | ⟨f, -, h⟩
      · exact points_here (field_follows limit (splitTag_suffix split)) (splitTag_suffix split) h
      rcases bind_eq_error_iff.mp h with h | ⟨found, -, h⟩
      · exact (ih h).below
      · cases h
    · split at h
      · exact (ih h).below
      · exact misplaced h
    · exact misplaced h

theorem classBlock_points {lines : List String}
    (h : classBlockWithin limit lines = .error e) : PointsInto 0 (lines.map body) e := by
  simp only [classBlockWithin] at h
  have header (index : Nat) (fits : e.line = index ∧
      IsBoundary (((lines.map body).drop index).head?.getD []) e.error.position) :
      PointsInto 0 (lines.map body) e := by
    refine ⟨Nat.zero_le _, ?_⟩
    rw [Nat.sub_zero, fits.1]
    simpa [List.head?_drop] using fits.2
  split at h
  · next text split =>
    rcases bind_eq_error_iff.mp h with h | ⟨head, -, h⟩
    · have after := splitTag_suffix split
      exact header _ (atLine_points (header_follows after) after h)
    rcases bind_eq_error_iff.mp h with h | ⟨⟨isOpaque, fields⟩, -, h⟩
    · exact .drop (by rw [Nat.zero_add]; exact members_points h)
    · dsimp only at h
      split at h
      · -- without a field, the failure is at the front of the header
        obtain rfl := Except.error.inj h
        exact ⟨Nat.zero_le _, isBoundary_zero _⟩
      · cases h
  · obtain rfl := Except.error.inj h
    exact header _ ⟨rfl, isBoundary_offset List.suffix_rfl⟩

theorem classBlock_line_le {limit : Nat} {lines : List String} {e : LineMismatch}
    (h : classBlockWithin limit lines = .error e) : e.line ≤ lines.length := by
  have header := (List.takeWhile_prefix (l := lines.map body)
    fun line => (tag? line).isNone).length_le
  rw [List.length_map] at header
  simp only [classBlockWithin] at h
  split at h
  · rcases bind_eq_error_iff.mp h with h | ⟨head, -, h⟩
    · rwa [line_of_atLine_eq_error h]
    rcases bind_eq_error_iff.mp h with h | ⟨⟨isOpaque, fields⟩, -, h⟩
    · have last := members_line_lt h
      have next := (members_points h).1
      rw [List.length_drop, List.length_map] at last
      omega
    · dsimp only at h
      split at h
      · rwa [line_of_atLine_eq_error h]
      · cases h
  · rwa [line_of_atLine_eq_error h]

/-- A block fails at one of its lines or right below them, between two characters of that line. -/
theorem Block.points_of_failed {b : Block} {f : BlockFailure} (h : b.outcome = .failed f) :
    b.start ≤ f.line ∧ f.line ≤ b.start + b.lines.length ∧
      IsBoundary ((b.lines.map body)[f.line - b.start]?.getD []) f.error.position := by
  have failure {subject : Subject} {e : LineMismatch} (points : PointsInto 0 (b.lines.map body) e)
      (place : e.line ≤ b.lines.length) (same : b.failure subject e = f) : b.start ≤ f.line ∧
      f.line ≤ b.start + b.lines.length ∧
      IsBoundary ((b.lines.map body)[f.line - b.start]?.getD []) f.error.position := by
    subst same
    refine ⟨Nat.le_add_right _ _, Nat.add_le_add_left place _, ?_⟩
    rw [Block.failure, Nat.add_sub_cancel_left]
    exact points.2
  rw [Block.outcome] at h
  split at h
  · split at h
    · cases h
    · next e failed =>
      exact failure (functionBlock_points failed) (functionBlock_line_le failed)
        (Outcome.failed.inj h)
  · split at h
    · cases h
    · next e failed =>
      exact failure (classBlock_points failed) (classBlock_line_le failed) (Outcome.failed.inj h)
  · split at h <;> cases h
  · split at h <;> cases h

theorem exists_block_of_failure {source : List String} {f : BlockFailure}
    (h : f ∈ (fileOfLines source).failures) :
    ∃ b : Block, b.IsRunOf source ∧ b.outcome = .failed f := by
  obtain ⟨o, ho, failed⟩ := List.mem_filterMap.mp h
  obtain ⟨b, hb, rfl⟩ := List.mem_map.mp ho
  refine ⟨b, mem_blocks_iff.mp hb, ?_⟩
  cases outcome : b.outcome with
  | failed g =>
    rw [outcome] at failed
    rw [Option.some.inj failed]
  | _ => simp [outcome, Outcome.failure?] at failed

end Comment

open Comment

/-- A type is read at every boundary between two characters, and nowhere else. Read at byte offsets
and by line numbers, with checks for all of them, no text and no lines fail a check, and what is read
is the same. The end of a type and the place of a failure are boundaries; a block fails at one of its
lines, or right below them as if an empty line stood there. -/
theorem readings_end_at_boundaries :
    (∀ text position, (AtOffset.typeAt text position).run = LuaType.parseAt? text position) ∧
    (∀ text position, IsBoundary text position →
      ∃ result, LuaType.parseAt? text position = some result ∧
        match result with
        | .ok (_, stop) => skipBlank text position < stop ∧ stop ≤ byteLength text ∧
          IsBoundary text stop
        | .error e => skipBlank text position ≤ e.position ∧ e.position ≤ byteLength text ∧
          IsBoundary text e.position) ∧
    (∀ text position, ¬ IsBoundary text position → LuaType.parseAt? text position = none) ∧
    (∀ name lines,
      (AtOffset.functionBlock LuaType.depthLimit name lines).run = some (functionBlock name lines) ∧
      ∀ e, functionBlock name lines = .error e → e.line ≤ lines.length ∧
        IsBoundary ((lines.map body)[e.line]?.getD []) e.error.position) ∧
    (∀ lines, (AtOffset.classBlock LuaType.depthLimit lines).run = some (classBlock lines) ∧
      ∀ e, classBlock lines = .error e → e.line ≤ lines.length ∧
        IsBoundary ((lines.map body)[e.line]?.getD []) e.error.position) ∧
    ∀ source, AtOffset.fileOfLines source = some (fileOfLines source) ∧
      ∀ f ∈ (fileOfLines source).failures, ∃ b : Block, b.IsRunOf source ∧
        b.start ≤ f.line ∧ f.line ≤ b.start + b.lines.length ∧
        IsBoundary ((b.lines.map body)[f.line - b.start]?.getD []) f.error.position := by
  refine ⟨AtOffset.typeAt_eq, fun text position h => ?_,
    fun text position => LuaType.parseAt?_of_not_isBoundary, fun name lines => ⟨?_, fun e h => ?_⟩,
    fun lines => ⟨?_, fun e h => ?_⟩, fun source => ⟨AtOffset.fileOfLines_eq source, fun f h => ?_⟩⟩
  · obtain ⟨result, read, fits⟩ := LuaType.parseAt?_of_isBoundary h
    refine ⟨result, read, ?_⟩
    cases result with
    | ok found => exact ⟨fits.1, fits.2.le_byteLength, fits.2⟩
    | error e => exact ⟨fits.1, fits.2.le_byteLength, fits.2⟩
  · rw [AtOffset.functionBlock_eq]
    rfl
  · exact ⟨functionBlock_line_le h, (functionBlock_points h).2⟩
  · rw [AtOffset.classBlock_eq]
    rfl
  · exact ⟨classBlock_line_le h, (classBlock_points h).2⟩
  · obtain ⟨b, run, failed⟩ := exists_block_of_failure h
    exact ⟨b, run, b.points_of_failed failed⟩

/-- Characters of several bytes around a failure, and a failure right below the last line. -/
theorem readings_end_at_boundaries_wide :
    let text := "é\t\x7b ж".toList
    let lines := ["---@param é nil", "---@note"]
    let source := ["---@example", "ж", "---ж", "---@return nil", "---@note", "M.f = 1"]
    (IsBoundary text 2 ∧ ¬ IsBoundary text 1 ∧ ∃ e, LuaType.parseAt? text 2 = some (.error e) ∧
      skipBlank text 2 ≤ e.position ∧ IsBoundary text e.position) ∧
    (∃ e, functionBlock "M.f" lines = .error e ∧ e.error.position = 7 ∧
      IsBoundary ((lines.map body)[e.line]?.getD []) 7) ∧
    ∃ f ∈ (fileOfLines source).failures, f.line = 6 ∧ ∃ b : Block, b.IsRunOf source ∧
      IsBoundary ((b.lines.map body)[f.line - b.start]?.getD []) f.error.position := by
  intro text lines source
  obtain ⟨-, types, -, functions, -, files⟩ := readings_end_at_boundaries
  refine ⟨?_, ?_, ?_⟩
  · have boundary : IsBoundary text 2 := isBoundary_iff.mpr ⟨"\t\x7b ж".toList, by decide⟩
    have inside : ¬ IsBoundary text 1 := by
      rintro h
      obtain ⟨after, found⟩ := isBoundary_iff.mp h
      have nowhere : afterBytes? 1 text = none := by decide
      rw [nowhere] at found
      cases found
    obtain ⟨result, read, fits⟩ := types text 2 boundary
    cases result with
    | ok found =>
      have failed : (LuaType.parseAt? text 2).map Except.isOk = some false := by decide
      simp [read, Except.isOk, Except.toBool] at failed
    | error e => exact ⟨boundary, inside, e, read, fits.1, fits.2.2⟩
  · have failed : ((functionBlock "M.f" lines).mapError fun e => e.error.position).map
        (fun _ => ()) = .error 7 := by decide +kernel
    cases block : functionBlock "M.f" lines with
    | ok f =>
      rw [block] at failed
      cases failed
    | error e =>
      rw [block] at failed
      have place : e.error.position = 7 := Except.error.inj failed
      exact ⟨e, rfl, place, place ▸ ((functions _ _).2 e block).2⟩
  · have six : (fileOfLines source).failures.map BlockFailure.line = [6] := by decide +kernel
    obtain ⟨f, hf, line⟩ : ∃ f ∈ (fileOfLines source).failures, f.line = 6 :=
      List.mem_map.mp (six ▸ List.mem_cons_self)
    obtain ⟨b, run, -, -, fits⟩ := (files source).2 f hf
    exact ⟨f, hf, line, b, run, fits⟩

end Annodoc
