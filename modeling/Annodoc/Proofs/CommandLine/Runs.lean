import Annodoc.Proofs.CommandLine.Strictness
import Annodoc.Proofs.Comment.Runs
import Annodoc.Proofs.FileSystem.Written
import Annodoc.Proofs.Project.Loading
import Mathlib.Algebra.GroupWithZero.Nat

/-!
# What a run leaves behind

A run writes once, after all that can fail before it. So a run that fails earlier has printed nothing
and changed no file; any other has delivered the text of the catalog, and a strict run is told
from one that is not by its verdict alone: whether a block of an input failed.
-/

namespace Annodoc
open Grammar (bind_eq_ok_iff bind_eq_error_iff mapError_eq_error_iff)

/-! ## Blocks that fail -/

namespace Comment

/-- Whether a block is outside the grammar of what it documents. -/
def Block.fails (b : Block) : Bool :=
  match Purpose.ofBlock b.lines b.next with
  | .functionNamed name => !(functionBlock name b.lines).isOk
  | .someClass => !(classBlock b.lines).isOk
  | .someAlias | .nothing => false

theorem Block.isSome_failure? (b : Block) : b.outcome.failure?.isSome = b.fails := by
  simp only [Block.outcome, Block.fails]
  cases Purpose.ofBlock b.lines b.next with
  | functionNamed name =>
    simp only
    cases functionBlock name b.lines <;> rfl
  | someClass =>
    simp only
    cases classBlock b.lines <;> rfl
  | someAlias =>
    simp only
    cases aliasBlock? b.lines <;> rfl
  | nothing =>
    simp only
    cases b.next.bind declaredName? <;> rfl

/-- The failures of a source are as many as its blocks that fail. -/
theorem length_failures (source : List String) :
    (fileOfLines source).failures.length = (blocks source).countP Block.fails := by
  rw [fileOfLines, fileOfOutcomes, List.length_filterMap_eq_countP, outcomes, List.countP_map]
  apply List.countP_congr
  intro b _
  rw [Function.comp_apply, Block.isSome_failure?]

end Comment

namespace Catalog

theorem failureCount_eq (c : Catalog) :
    c.failureCount = (c.files.map fun x => x.2.failures.length).sum := by
  simp [failureCount, failures, List.length_flatMap]

end Catalog

/-- The failures that come before the output: all but that of the write, and the verdict. -/
def RunFailure.BeforeOutput : RunFailure → Prop
  | .unknownFormat _ | .invalidExclude _ _ | .invalidGlob _ _ | .unreadable _ _
  | .unreadableInput => True
  | .unwritable _ _ | .failedBlocks _ => False

namespace CommandLine
open Comment

/-! ## Inputs -/

/-- The texts that a run reads: the one on standard input, or those of the selected files. -/
inductive Options.Inputs (o : Options) (fs : FileSystem) (input : List UInt8) :
    List (List Char) → Prop where
  | standard {text : List Char} (none : o.paths = []) (valid : Text.Utf8.decode? input = some text) :
      o.Inputs fs input [text]
  | files {search : SearchOptions} {s : Selection} {contents : List (List UInt8)}
      (some : o.paths ≠ []) (options : o.searchOptions = .ok search)
      (selected : Selection.ofPaths fs search o.paths = .ok s)
      (read : List.Forall₂ (fun path bytes => fs.read path = .ok bytes) s.files contents) :
      o.Inputs fs input (contents.map Text.Utf8.decodeLossy)

/-- The number of blocks in the texts that fail. -/
def failing (texts : List (List Char)) : Nat :=
  (texts.map fun text => (blocks (sourceLines text)).countP Block.fails).sum

variable {o : Options} {fs : FileSystem} {input : List UInt8} {sources : Collected}

theorem failing_pos_iff {texts : List (List Char)} : 0 < failing texts ↔
    ∃ text ∈ texts, ∃ b : Block, b.IsRunOf (sourceLines text) ∧ b.fails := by
  rw [failing, List.sum_pos_iff_exists_pos_nat]
  simp [mem_blocks_iff]

/-- The catalog counts the blocks that fail in the inputs, each of them once. -/
theorem exists_inputs (h : o.sources fs input = .ok sources) :
    ∃ texts, o.Inputs fs input texts ∧ sources.catalog.failureCount = failing texts := by
  rw [Options.sources] at h
  by_cases none : o.paths = []
  · simp only [none, List.isEmpty_nil, if_true, ofInput] at h
    cases valid : Text.Utf8.decode? input with
    | none => simp [valid] at h
    | some text =>
      simp only [valid] at h
      obtain rfl := Except.ok.inj h
      refine ⟨[text], .standard none valid, ?_⟩
      have one := length_failures (sourceLines text)
      rw [fileOfLines] at one
      simp [Catalog.failureCount_eq, Catalog.add, Catalog.putFile, Catalog.empty, failing, one]
  · rw [if_neg (by simpa using none)] at h
    obtain ⟨search, options, h⟩ := bind_eq_ok_iff.mp h
    obtain ⟨p, loaded, h⟩ := bind_eq_ok_iff.mp h
    obtain rfl := Except.ok.inj h
    obtain ⟨s, selected, -, read⟩ := Project.load_eq_ok_iff.mp loaded
    obtain ⟨contents, read, same⟩ := Project.exists_contents_of_read read
    refine ⟨_, .files none options selected read, ?_⟩
    have counts : p.sources.map (fun x => x.2.failures.length) =
        contents.map fun bytes => (blocks (sourceLines (Text.Utf8.decodeLossy bytes))).countP
          Block.fails := by
      calc p.sources.map (fun x => x.2.failures.length)
          = (p.files.map Prod.snd).map fun r => r.doc.failures.length := by
            simp [Project.sources]
        _ = contents.map fun bytes =>
              (fileOfLines (sourceLines (Text.Utf8.decodeLossy bytes))).failures.length := by
            rw [same, List.map_map]
            rfl
        _ = _ := List.map_congr_left fun _ _ => length_failures _
    rw [Catalog.failureCount_eq, failing, List.map_map]
    exact (((Project.catalog_files_perm loaded).map _).sum_nat).trans (congrArg List.sum counts)

/-! ## Failures -/

theorem searchOptions_error {f : RunFailure} (h : o.searchOptions = .error f) :
    f.BeforeOutput := by
  rcases bind_eq_error_iff.mp h with h | ⟨_, -, h⟩
  · obtain ⟨pattern, -, h⟩ := exists_of_mapM_eq_error h
    obtain ⟨e, -, rfl⟩ := mapError_eq_error_iff.mp h
    trivial
  · cases h

theorem selection_error {search : SearchOptions} {paths : List String} {f : RunFailure}
    (h : Selection.ofPaths fs search paths = .error f) : f.BeforeOutput := by
  rcases bind_eq_error_iff.mp h with h | ⟨_, -, h⟩
  · obtain ⟨path, -, h⟩ := exists_of_mapM_eq_error h
    rw [Selection.ofPath] at h
    split at h
    · cases h
    · rcases bind_eq_error_iff.mp h with h | ⟨_, -, h⟩
      · obtain ⟨e, -, rfl⟩ := mapError_eq_error_iff.mp h
        trivial
      · cases h
  · cases h

theorem load_error {search : SearchOptions} {paths : List String} {f : RunFailure}
    (h : Project.load fs search paths = .error f) : f.BeforeOutput := by
  rcases bind_eq_error_iff.mp h with h | ⟨s, -, h⟩
  · exact selection_error h
  rcases bind_eq_error_iff.mp h with h | ⟨_, -, h⟩
  · obtain ⟨path, -, h⟩ := exists_of_mapM_eq_error h
    rcases bind_eq_error_iff.mp h with h | ⟨_, -, h⟩
    · rw [Reading.ofPath] at h
      split at h
      · cases h
      · cases h
        trivial
    · cases h
  · cases h

theorem sources_error {f : RunFailure} (h : o.sources fs input = .error f) : f.BeforeOutput := by
  rw [Options.sources] at h
  split at h
  · rw [ofInput] at h
    split at h
    · cases h
    · cases h
      trivial
  · rcases bind_eq_error_iff.mp h with h | ⟨search, -, h⟩
    · exact searchOptions_error h
    · rcases bind_eq_error_iff.mp h with h | ⟨p, -, h⟩
      · exact load_error h
      · cases h

/-- What fails before the output is known to be one of these. -/
theorem rendering_error {f : RunFailure} (h : o.rendering fs input = .error f) :
    f.BeforeOutput := by
  simp only [Options.rendering] at h
  split at h
  · cases h
    trivial
  · rcases bind_eq_error_iff.mp h with h | ⟨_, -, h⟩
    · exact sources_error h
    · cases h

theorem exists_format {text : String} (h : o.rendering fs input = .ok (sources, text)) :
    ∃ format, Format.ofName? (o.format.getD "report") = some format ∧
      o.sources fs input = .ok sources ∧ text = sources.catalog.write format o.showPrivate := by
  simp only [Options.rendering] at h
  split at h
  · cases h
  next format known =>
    obtain ⟨collected, found, h⟩ := bind_eq_ok_iff.mp h
    cases h
    exact ⟨format, known, found, rfl⟩

theorem not_beforeOutput_of_verdict {c : Catalog} {f : RunFailure} (h : o.verdict c = some f) :
    ¬ f.BeforeOutput := by
  rw [Options.verdict] at h
  split at h
  · cases h
    exact id
  · cases h

/-! ## Runs -/

/-- The text is printed, or stands in the output file. -/
def Outcome.Delivers (r : Outcome) (before : FileSystem) (output : Option String)
    (text : String) : Prop :=
  match output with
  | none => r.printed = text ∧ r.written = none ∧ r.files = before
  | some path => r.printed = "" ∧ r.written = some (path, text) ∧
      before.write path text.toUTF8.toList = .ok r.files ∧ r.files.read path = .ok text.toUTF8.toList

theorem run_of_error {f : RunFailure} (h : o.rendering fs input = .error f) :
    run o fs input = ⟨"", none, some f, fs, []⟩ := by
  rw [run, h]

theorem run_of_ok {text : String} (h : o.rendering fs input = .ok (sources, text))
    (writable : ∀ path, o.output = some path → ∃ data after, fs.write path data = .ok after) :
    (run o fs input).Delivers fs o.output text ∧
      (run o fs input).failure = o.verdict sources.catalog := by
  rw [run, h]
  cases output : o.output with
  | none => exact ⟨⟨rfl, rfl, rfl⟩, rfl⟩
  | some path =>
    obtain ⟨data, after, possible⟩ := writable path output
    obtain ⟨after, written⟩ := FileSystem.exists_write possible text.toUTF8.toList
    simp only [written]
    exact ⟨⟨rfl, rfl, written, FileSystem.read_write written⟩, trivial⟩

theorem exitCode_eq_one_iff {texts : List (List Char)}
    (verdict : (run o fs input).failure = o.verdict sources.catalog)
    (counted : sources.catalog.failureCount = failing texts) :
    (run o fs input).exitCode = 1 ↔ o.strict = true ∧ 0 < failing texts := by
  rw [Outcome.exitCode, verdict, Options.verdict, counted]
  split <;> simp_all

/-- What a run leaves behind does not depend on strictness, only its verdict does. -/
theorem run_strict (o : Options) (fs : FileSystem) (input : List UInt8) (strict : Bool) :
    (run { o with strict := strict } fs input).printed = (run o fs input).printed ∧
      (run { o with strict := strict } fs input).written = (run o fs input).written ∧
      (run { o with strict := strict } fs input).files = (run o fs input).files := by
  have same : { o with strict := strict }.rendering fs input = o.rendering fs input := rfl
  rw [run, run, same]
  cases o.rendering fs input with
  | error f => exact ⟨rfl, rfl, rfl⟩
  | ok found =>
    cases o.output with
    | none => exact ⟨rfl, rfl, rfl⟩
    | some path =>
      simp only
      cases fs.write path found.2.toUTF8.toList <;> exact ⟨rfl, rfl, rfl⟩

/-- A run that fails before its output has printed nothing and changed no file. Any other delivers
the text of the catalog; it ends with code 1 if it is strict and a block of an input failed. Strictness
may be asked for before any other argument, and what is delivered is the same with it and without. -/
theorem run_leaves {arguments : List String} (asked : Options.ofArguments arguments = .ok o)
    (writable : ∀ path, o.output = some path → ∃ data after, fs.write path data = .ok after) :
    ((∃ f, (run o fs input).failure = some f ∧ f.BeforeOutput) →
      (run o fs input).printed = "" ∧ (run o fs input).written = none ∧
      (run o fs input).files = fs ∧ (run o fs input).exitCode = 1) ∧
    ((¬ ∃ f, (run o fs input).failure = some f ∧ f.BeforeOutput) →
      ∃ format sources texts, Format.ofName? (o.format.getD "report") = some format ∧
        o.sources fs input = .ok sources ∧ o.Inputs fs input texts ∧
        (run o fs input).Delivers fs o.output (sources.catalog.write format o.showPrivate) ∧
        ((run o fs input).exitCode = 1 ↔ o.strict = true ∧
          ∃ text ∈ texts, ∃ b : Block, b.IsRunOf (sourceLines text) ∧ b.fails) ∧
        ∀ n, (run o fs input).failure = some (.failedBlocks n) → n = failing texts) ∧
    (o.strict = false →
      Options.ofArguments ("--strict" :: arguments) = .ok { o with strict := true }) ∧
    ∀ strict : Bool, (run { o with strict := strict } fs input).printed = (run o fs input).printed ∧
      (run { o with strict := strict } fs input).written = (run o fs input).written ∧
      (run { o with strict := strict } fs input).files = (run o fs input).files := by
  refine ⟨?_, ?_, Options.ofArguments_strict asked, ?_⟩
  · rintro ⟨f, failed, before⟩
    cases rendered : o.rendering fs input with
    | error g =>
      rw [run_of_error rendered]
      exact ⟨rfl, rfl, rfl, rfl⟩
    | ok found =>
      rw [(run_of_ok rendered writable).2] at failed
      exact absurd before (not_beforeOutput_of_verdict failed)
  · intro late
    cases rendered : o.rendering fs input with
    | error f => exact absurd ⟨f, by rw [run_of_error rendered], rendering_error rendered⟩ late
    | ok found =>
      obtain ⟨sources, text⟩ := found
      obtain ⟨delivered, verdict⟩ := run_of_ok rendered writable
      obtain ⟨format, known, found, rfl⟩ := exists_format rendered
      obtain ⟨texts, inputs, counted⟩ := exists_inputs found
      refine ⟨format, sources, texts, known, found, inputs, delivered, ?_, fun n failed => ?_⟩
      · rw [exitCode_eq_one_iff verdict counted, failing_pos_iff]
      · rw [verdict, Options.verdict, counted] at failed
        split at failed
        · cases failed
          rfl
        · cases failed
  · exact run_strict o fs input

/-- One of the two blocks of the only file fails: the output is written all the same. -/
theorem run_leaves_one_failure :
    let source := "---@return nil\nM.f = 1\n\n---@return Bad\nM.g = 1\n".toUTF8.toList
    let fs := (FileSystem.empty ["work"]).addFile ["work", "a.lua"] (.bytes source)
    let o : Options := { paths := ["a.lua"], output := some "out.txt", strict := true }
    Options.ofArguments ["--strict", "-o", "out.txt", "a.lua"] = .ok o ∧
    (∀ path, o.output = some path → ∃ data after, fs.write path data = .ok after) ∧
    (∃ text, (run o fs []).written = some ("out.txt", text) ∧
      (run o fs []).files.read "out.txt" = .ok text.toUTF8.toList) ∧
    (run o fs []).failure = some (.failedBlocks 1) ∧
    ∃ texts, o.Inputs fs [] texts ∧ failing texts = 1 := by
  intro source fs o
  have asked : Options.ofArguments ["--strict", "-o", "out.txt", "a.lua"] = .ok o := by
    decide +kernel
  have writable : ∀ path, o.output = some path → ∃ data after, fs.write path data = .ok after := by
    rintro path ⟨⟩
    have possible : (fs.write "out.txt" []).toOption.isSome := by decide
    cases written : fs.write "out.txt" [] with
    | ok after => exact ⟨[], after, written⟩
    | error e => simp [written, Except.toOption] at possible
  have failed : (run o fs []).failure = some (.failedBlocks 1) := by decide +kernel
  have late : ¬ ∃ f, (run o fs []).failure = some f ∧ f.BeforeOutput := by
    rintro ⟨f, h, before⟩
    obtain rfl := Option.some.inj (failed.symm.trans h)
    exact before
  obtain ⟨-, delivers, -⟩ := @run_leaves o fs [] _ asked writable
  obtain ⟨_, _, texts, -, -, inputs, ⟨-, written, -, read⟩, -, count⟩ := delivers late
  exact ⟨asked, writable, ⟨_, written, read⟩, failed, texts, inputs, (count 1 failed).symm⟩

end CommandLine
end Annodoc
