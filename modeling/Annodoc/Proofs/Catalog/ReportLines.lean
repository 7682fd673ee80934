import Annodoc.Proofs.Catalog.Lookup
import Annodoc.Proofs.Catalog.Sections
import Annodoc.Proofs.Comment.ShownTexts

/-!
# The lines of a report

A report falls apart into the lines that were put together for it, whatever the sources hold, as
long as the paths are on one line each. Its lines are those that the export makes.
-/

namespace Annodoc
open Json Text

namespace Catalog

variable {c : Catalog} {path : String} {file : FileDoc}

theorem counts_oneLine (n : Counts) : OneLine n.text := by
  have words : OneLine " functions, " ∧ OneLine " classes, " ∧ OneLine " aliases" := by decide
  simp [Counts.text, words]

theorem fileLines_oneLine (hp : OneLine path) (hf : ∀ s ∈ file.shownTexts, OneLine s)
    (withPrivate : Bool) : ∀ line ∈ fileLines withPrivate path file, OneLine line := by
  rw [fileLines, List.forall_mem_cons]
  constructor
  · simp only [oneLine_append]
    exact ⟨⟨hp, by decide⟩, counts_oneLine _⟩
  · rw [List.forall_mem_map]
    intro s hs
    refine oneLine_append.mpr ⟨by decide, hf s ?_⟩
    simp only [FileDoc.shownTexts, List.mem_append] at hs ⊢
    rcases hs with (hs | hs) | hs
    · obtain ⟨f, mem, rfl⟩ := List.mem_map.mp hs
      exact .inl (.inl (.inl (List.mem_map_of_mem (List.mem_of_mem_filter mem))))
    · exact .inl (.inl (.inr hs))
    · exact .inl (.inr hs)

theorem failureLine_oneLine (hp : OneLine path) {f : BlockFailure} (hf : OneLine f.message) :
    OneLine (failureLine path f) := by
  simp only [failureLine, oneLine_append]
  exact ⟨⟨⟨⟨hp, by decide⟩, oneLine_repr _⟩, by decide⟩, hf⟩

theorem reportLines_oneLine
    (h : ∀ x ∈ c.files, OneLine x.1 ∧ ∀ s ∈ x.2.shownTexts, OneLine s) (withPrivate : Bool) :
    ∀ line ∈ c.reportLines withPrivate, OneLine line := by
  have nothing : OneLine "" := by decide
  have total : OneLine (c.totalsLine withPrivate) := by
    simp only [totalsLine, oneLine_append]
    exact ⟨⟨⟨⟨⟨oneLine_repr _, by decide⟩, counts_oneLine _⟩, by decide⟩, oneLine_repr _⟩,
      by decide⟩
  have failed : ∀ line ∈ c.failureLines, OneLine line := by
    rw [failureLines]
    split
    · simp
    · rw [List.forall_mem_cons]
      refine ⟨nothing, ?_⟩
      rw [List.forall_mem_map]
      simp only [failures, List.mem_flatMap, List.mem_map]
      rintro _ ⟨⟨path, file⟩, mem, f, hf, rfl⟩
      obtain ⟨hp, shown⟩ := h _ mem
      apply failureLine_oneLine hp
      apply shown
      rw [FileDoc.shownTexts, List.mem_append]
      exact .inr (List.mem_map_of_mem hf)
  simp only [reportLines, List.mem_append, List.mem_flatMap]
  rintro line ((⟨⟨path, file⟩, mem, hl⟩ | hl) | hl)
  · obtain ⟨hp, shown⟩ := h _ mem
    exact fileLines_oneLine hp shown withPrivate line hl
  · exact failed line hl
  · rcases List.mem_cons.mp hl with rfl | hl
    · exact nothing
    · obtain rfl := List.mem_singleton.mp hl
      exact total

/-- The lines of a report come back from its text. -/
theorem rows_report (h : ∀ x ∈ c.files, OneLine x.1 ∧ ∀ s ∈ x.2.shownTexts, OneLine s)
    (withPrivate : Bool) : rows (c.report withPrivate) = c.reportLines withPrivate ++ [""] :=
  rows_join (reportLines_oneLine h withPrivate)

/-- The report on any sources, under paths of one line each, is made of lines that end with a line
feed each: for every file of the export a header, which counts what the export lists of the file,
and a line for each function, class and alias that is listed there; an empty line and the failures
in the order of the export, if there are any; an empty line, and the sums of the headers with the
count of failures in the export. -/
theorem rows_report_eq_export (sources : List (String × List Char))
    (paths : ∀ x ∈ sources, OneLine x.1) (withPrivate : Bool) :
    let c := ofFiles (parsed sources)
    let exported := c.toJson withPrivate
    let files := exported.itemsAt "files"
    let sections := files.map Export.fileSection
    let failures := files.flatMap Export.fileFailures
    rows (c.report withPrivate) =
      sections.flatMap Section.lines ++ (if failures = [] then [] else "" :: failures) ++
        ["", toString files.length ++ " files, " ++ (Section.sum sections).text ++ ", " ++
          toString (exported.numberAt "error_count") ++ " errors"] ++ [""] ∧
    (∃ text, c.report withPrivate = text ++ "\n") ∧
    files.map (fun file => file.textAt "path") = c.files.map Prod.fst ∧
    (c.files.map Prod.fst).Pairwise (· < ·) ∧
    exported.numberAt "error_count" = failures.length ∧
    ∀ s ∈ sections, s.counts = ⟨s.functions.length, s.classes.length, s.aliases.length⟩ := by
  intro c exported files sections failures
  have legible : ∀ x ∈ c.files, OneLine x.1 ∧ ∀ s ∈ x.2.shownTexts, OneLine s := by
    rintro ⟨path, file⟩ mem
    obtain ⟨text, added, rfl⟩ := exists_source_of_mem_parsed mem
    exact ⟨paths _ added, shownTexts_oneLine text⟩
  refine ⟨?_, ?_, ?_, c.sorted, ?_, ?_⟩
  · rw [rows_report legible, ← Export.reportLines_toJson]
    rfl
  · exact exists_join_eq (List.append_ne_nil_of_right_ne_nil _ (by simp))
  · simp only [files, exported, Export.files_toJson, List.map_map]
    rfl
  · simp only [failures, files, exported, Export.failures_toJson, List.length_map]
    rfl
  · intro s hs
    obtain ⟨file, -, rfl⟩ := List.mem_map.mp hs
    simp only [Export.fileSection, List.length_map]

theorem rows_report_eq_export_one_failure :
    let first := "---@param s 'x'\nM.g = 1\n---@return nil\n---@private\nM.h = 1".toList
    let second := "---@class C : P\n---@field n integer\n\n---@param a \\\nM.f = 1".toList
    let sources := [("b.lua", second), ("a.lua", first)]
    (∀ x ∈ sources, OneLine x.1) ∧
    rows ((ofFiles (parsed sources)).report false) =
      ["a.lua: 1 functions, 0 classes, 0 aliases", "  g(s: 'x')",
        "b.lua: 0 functions, 1 classes, 0 aliases", "  class C : P (1 fields)", "",
        "b.lua:4: function `f`: expected a type at offset 9, found \"\\\\\"", "",
        "2 files, 1 functions, 1 classes, 0 aliases, 1 errors", ""] := by
  intro first second sources
  have paths : ∀ x ∈ sources, OneLine x.1 := by decide
  obtain ⟨split, -⟩ := rows_report_eq_export sources paths false
  have lines := Export.reportLines_toJson (ofFiles (parsed sources)) false
  refine ⟨paths, split.trans ((congrArg (· ++ [""]) lines).trans ?_)⟩
  decide +kernel

end Catalog
end Annodoc
