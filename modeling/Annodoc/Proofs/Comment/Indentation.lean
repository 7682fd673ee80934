import Annodoc.Proofs.Comment.Composition

/-!
# Indented parts

The parts of a parameter are read from the lines of inner text right below its tag. Such a line begins
with a blank, so it is indented more deeply than a tag that stands right behind its marker, and a line
that is not ends the parts. The indentation of the tag itself is never looked at: below a tag that is
indented, a part may be indented as the tag is, or less.
-/

namespace Annodoc.Comment
open Text Grammar

/-- How much white space a line begins with. -/
def indent (line : List Char) : Nat := (line.takeWhile isSpace).length

/-- A line with the tag of a parameter, and the lines that are taken as its parts. -/
structure Capture where
  line : List Char
  parts : List (List Char)
  deriving DecidableEq

/-- All lines with the tag of a parameter, each with the lines of inner text right below. -/
def captures : List (List Char) → List Capture
  | [] => []
  | line :: below =>
    if tag? line = some .param then ⟨line, below.takeWhile isInnerText⟩ :: captures below
    else captures below

def Capture.tagLine (c : Capture) : TagLine where
  tag := .param
  text := (splitTag c.line).elim [] Prod.snd
  inner := c.parts

/-- The parameter was read from the text behind its tag, and its parts line by line. -/
def Capture.Holds (c : Capture) (p : Param) : Prop :=
  ParamReadFrom LuaType.depthLimit c.tagLine p

variable {line next : List Char} {block : List (List Char)} {name : String} {lines : List String}
  {f : FunctionDoc}

theorem paramLines_eq_map (block : List (List Char)) :
    paramLines block = (captures block).map Capture.tagLine := by
  induction block with
  | nil => rfl
  | cons line below ih =>
    rw [paramLines] at ih
    rw [captures, paramLines, tagLines, tag?]
    cases split : splitTag line with
    | none => simpa using ih
    | some found =>
      obtain ⟨tag, text⟩ := found
      by_cases param : tag = .param
      · simp [param, ih, Capture.tagLine, split]
      · simp [param, ih]

/-- Every parameter of a block was read from a line with its tag and the lines that this captures, in
the order of the lines. -/
theorem holds_of_functionBlock (read : functionBlock name lines = .ok f) :
    List.Forall₂ Capture.Holds (captures (lines.map body)) f.params := by
  obtain ⟨summary, found, rfl, clauses⟩ := functionBlock_readFrom read
  have params := params_readFrom clauses
  rwa [← paramLines, paramLines_eq_map, List.forall₂_map_left_iff] at params

/-! ## Indentation -/

theorem indent_pos (h : isInnerText line = true) : 0 < indent line := by
  rw [isInnerText, Bool.and_eq_true, Bool.and_eq_true, Option.any_eq_true] at h
  obtain ⟨⟨⟨c, first, blank⟩, -⟩, -⟩ := h
  obtain ⟨rest, rfl⟩ := List.head?_eq_some_iff.mp first
  rw [indent, List.takeWhile_cons_of_pos (isSpace_of_isBlank blank)]
  exact Nat.succ_pos _

theorem isInnerText_eq_false_of_indent (h : indent line = 0) : isInnerText line = false := by
  by_contra inner
  have deep := indent_pos (by simpa using inner)
  omega

theorem mem_captures_iff {c : Capture} : c ∈ captures block ↔ ∃ above below,
    block = above ++ c.line :: below ∧ tag? c.line = some .param ∧
      c.parts = below.takeWhile isInnerText := by
  induction block with
  | nil => simp [captures]
  | cons line rest ih =>
    have later : (∃ above below, line :: rest = above ++ c.line :: below ∧
        tag? c.line = some .param ∧ c.parts = below.takeWhile isInnerText) ↔
        (line = c.line ∧ tag? c.line = some .param ∧ c.parts = rest.takeWhile isInnerText) ∨
          c ∈ captures rest := by
      rw [ih]
      constructor
      · rintro ⟨_ | ⟨first, above⟩, below, eq, tag, parts⟩
        · obtain ⟨rfl, rfl⟩ := List.cons.inj eq
          exact .inl ⟨rfl, tag, parts⟩
        · obtain ⟨rfl, rfl⟩ := List.cons.inj eq
          exact .inr ⟨above, below, rfl, tag, parts⟩
      · rintro (⟨rfl, tag, parts⟩ | ⟨above, below, rfl, tag, parts⟩)
        · exact ⟨[], rest, rfl, tag, parts⟩
        · exact ⟨line :: above, below, rfl, tag, parts⟩
    rw [later, captures]
    by_cases param : tag? line = some .param
    · rw [if_pos param, List.mem_cons]
      refine or_congr_left ⟨?_, ?_⟩
      · rintro rfl
        exact ⟨rfl, param, rfl⟩
      · rintro ⟨rfl, -, parts⟩
        obtain ⟨_, _⟩ := c
        exact congrArg _ parts
    · rw [if_neg param]
      refine ⟨.inr, fun h => h.resolve_left ?_⟩
      rintro ⟨rfl, tag, -⟩
      exact param tag

/-- A line that is captured is indented, so more deeply than a tag that is not. -/
theorem indent_lt_of_captured {c : Capture} (mem : c ∈ captures block) (flush : indent c.line = 0) :
    ∀ part ∈ c.parts, indent c.line < indent part := by
  obtain ⟨above, below, -, -, parts⟩ := mem_captures_iff.mp mem
  intro part hp
  rw [parts] at hp
  rw [flush]
  exact indent_pos (List.mem_takeWhile_imp hp)

/-- A line that is not indented ends what is captured above it. -/
theorem takeWhile_before (flat : indent next = 0) (between below : List (List Char)) :
    (between ++ next :: below).takeWhile isInnerText = between.takeWhile isInnerText := by
  apply takeWhile_append_ends
  rintro line ⟨⟩
  exact isInnerText_eq_false_of_indent flat

/-! ## Text below the parts -/

/-- Free text that is not indented fails the block, unless it is the summary. -/
theorem functionBlock_free_text {text : String} (read : functionBlock name lines = .ok f)
    (inked : ∃ line ∈ lines, isEmptyText (body line) = false) (flat : indent (body text) = 0)
    (some : isEmptyText (body text) = false) (untagged : tag? (body text) = none)
    (below : List String) :
    functionBlock name (lines ++ text :: below) =
      .error ⟨lines.length, ⟨0, .aTag, .ofRest (body text)⟩⟩ := by
  obtain ⟨cs, clauses_, -⟩ := functionBlockWithin_eq_ok_iff.mp read
  have ends : ∀ line ∈ (body text :: below.map body).head?, isInnerText line = false := by
    rintro line ⟨⟩
    exact isInnerText_eq_false_of_indent flat
  have place := length_summaryAndClauses (lines.map body)
  have settled : ∃ line ∈ lines.map body, isEmptyText line = false := by simpa using inked
  have noTag : splitTag (body text) = none := by simpa [tag?] using untagged
  rw [functionBlock, functionBlockWithin_eq_error_iff, List.map_append, List.map_cons,
    summaryAndClauses_append_inked settled, clauses_append_ok ends clauses_, place, clauses,
    if_neg (by simp [some]), noTag]
  simp [LineMismatch.atLine, Except.mapError, Except.map, Stop.inText]

/-- In a block that can be read, the parts of every parameter are the lines of inner text right below
its tag. Where the tag stands right behind its marker, these are indented more deeply, and a line that
is not ends them. Free text there, below any parameter, fails the block as a second free text. -/
theorem subparams_indented (read : functionBlock name lines = .ok f) :
    List.Forall₂ Capture.Holds (captures (lines.map body)) f.params ∧
    (∀ c ∈ captures (lines.map body), indent c.line = 0 →
      ∀ part ∈ c.parts, indent c.line < indent part) ∧
    (∀ above line between next below, lines.map body = above ++ line :: (between ++ next :: below) →
      tag? line = some .param → indent line = 0 → indent next ≤ indent line →
      ⟨line, between.takeWhile isInnerText⟩ ∈ captures (lines.map body)) ∧
    ∀ text below, captures (lines.map body) ≠ [] → indent (body text) = 0 →
      isEmptyText (body text) = false → tag? (body text) = none →
      functionBlock name (lines ++ text :: below) =
        .error ⟨lines.length, ⟨0, .aTag, .ofRest (body text)⟩⟩ := by
  refine ⟨holds_of_functionBlock read, fun c mem flush => indent_lt_of_captured mem flush,
    fun above line between next below split tag flush flat => ?_,
    fun text below some flat inked untagged => ?_⟩
  · have ends : indent next = 0 := by omega
    exact mem_captures_iff.mpr
      ⟨above, between ++ next :: below, split, tag, (takeWhile_before ends between below).symm⟩
  · obtain ⟨c, mem⟩ := List.exists_mem_of_ne_nil _ some
    obtain ⟨above, below', split, tag, -⟩ := mem_captures_iff.mp mem
    obtain ⟨line, hl, eq⟩ : ∃ line ∈ lines, body line = c.line := by
      rw [← List.mem_map, split]
      exact List.mem_append_cons_self
    rw [← eq] at tag
    exact functionBlock_free_text read ⟨line, hl, isEmptyText_eq_false_of_tag tag⟩ flat inked
      untagged below

/-- A part that is indented by a tab, then text that is not indented. -/
theorem subparams_indented_tab :
    let lines := ["---Opens", "---@param t table", "---\tx string", "---"]
    ∃ f, functionBlock "f" lines = .ok f ∧
      List.Forall₂ Capture.Holds [⟨"@param t table".toList, ["\tx string".toList]⟩] f.params ∧
      indent "@param t table".toList < indent "\tx string".toList ∧
      functionBlock "f" (lines ++ ["---y string"]) =
        .error ⟨4, ⟨0, .aTag, .ofRest "y string".toList⟩⟩ := by
  intro lines
  have some : (functionBlock "f" lines).toOption.isSome = true := by decide +kernel
  have found : captures (lines.map body) = [⟨"@param t table".toList, ["\tx string".toList]⟩] := by
    decide
  cases read : functionBlock "f" lines with
  | error e => simp [read, Except.toOption] at some
  | ok f =>
    obtain ⟨holds, deeper, -, fails⟩ := subparams_indented read
    rw [found] at holds deeper fails
    refine ⟨f, rfl, holds, deeper _ List.mem_cons_self (by decide) _ List.mem_cons_self, ?_⟩
    exact fails "---y string" [] (by simp) (by decide) (by decide) (by decide)

/-- Below a tag that is indented, a line with the same indentation is taken as a part, and so is one
with less. -/
theorem subparam_not_deeper :
    let flush := ["--- @param t table", "--- x string"]
    let shallow := ["---   @param t table", "--- x string"]
    captures (flush.map body) = [⟨" @param t table".toList, [" x string".toList]⟩] ∧
    indent " x string".toList = indent " @param t table".toList ∧
    (functionBlock "f" flush).toOption.map (fun f => f.params.map fun p =>
      p.subparams.map Param.name) = some [["x"]] ∧
    captures (shallow.map body) = [⟨"   @param t table".toList, [" x string".toList]⟩] ∧
    indent " x string".toList < indent "   @param t table".toList ∧
    (functionBlock "f" shallow).toOption.map (fun f => f.params.map fun p =>
      p.subparams.map Param.name) = some [["x"]] := by
  refine ⟨?_, ?_, ?_, ?_, ?_, ?_⟩ <;> decide +kernel

end Annodoc.Comment
