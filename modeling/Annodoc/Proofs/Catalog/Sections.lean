import Annodoc.Catalog.Export
import Annodoc.Catalog.Report
import Annodoc.Proofs.Catalog.Expansion
import Annodoc.Proofs.Json.Members
import Mathlib.Algebra.GroupWithZero.Nat

/-!
# Sections

A report has a section for each file, then the failures, then the totals. All of it can be read off
the export, which is written on its own: a header counts what the export lists, a line shows what
the export holds at the same place of the same list, and the totals are sums of the headers.
-/

namespace Annodoc
open Json

/-- What a report says of one file. -/
structure Section where
  path : String
  counts : Counts
  functions : List String
  classes : List String
  aliases : List String

namespace Section

/-- The header, then a line for each function, each class and each alias. -/
def lines (s : Section) : List String :=
  (s.path ++ ": " ++ s.counts.text) :: (s.functions ++ s.classes ++ s.aliases).map ("  " ++ ·)

/-- The counts of all sections together. -/
def sum (sections : List Section) : Counts where
  functions := (sections.map fun s => s.counts.functions).sum
  classes := (sections.map fun s => s.counts.classes).sum
  aliases := (sections.map fun s => s.counts.aliases).sum

end Section

namespace Catalog

def sections (c : Catalog) (withPrivate : Bool) : List Section :=
  c.files.map fun (path, file) =>
    { path := path
      counts := counts withPrivate file
      functions := (shown withPrivate file).map FunctionDoc.outline
      classes := file.classes.map ClassDoc.outline
      aliases := file.aliases.map AliasDoc.outline }

theorem reportLines_eq_sections (c : Catalog) (withPrivate : Bool) : c.reportLines withPrivate =
    (c.sections withPrivate).flatMap Section.lines ++ c.failureLines ++
      ["", c.totalsLine withPrivate] := by
  simp only [reportLines, sections, List.flatMap_map, fileLines, Section.lines]

theorem totals_eq_sum (c : Catalog) (withPrivate : Bool) :
    c.totals withPrivate = Section.sum (c.sections withPrivate) := by
  simp only [totals, Section.sum, sections, List.length_flatMap, List.map_map, Function.comp_def,
    counts]

end Catalog

/-! ## Reading the export -/

namespace Export

/-- The names and types of the parameters of a function, the types of its results, and its marks,
from its JSON object. -/
def functionOutline (f : Value) : String :=
  let params := (f.itemsAt "params").map fun p => p.textAt "name" ++ ": " ++ p.textAt "type"
  let returns := (f.itemsAt "returns").map fun r => r.textAt "type"
  f.textAt "name" ++ "(" ++ ", ".intercalate params ++ ")" ++
    (if returns = [] then "" else " -> " ++ ", ".intercalate returns) ++
    (if f.flagAt "private" then " [private]" else "") ++
    (if f.flagAt "deprecated" then " [deprecated]" else "")

def classOutline (c : Value) : String :=
  "class " ++ c.textAt "name" ++
    (if (c.member? "parent").isSome then " : " ++ c.textAt "parent" else "") ++
    " (" ++ toString (c.itemsAt "fields").length ++ " fields)" ++
    if c.flagAt "opaque" then " [opaque]" else ""

def aliasOutline (a : Value) : String :=
  "alias " ++ a.textAt "name" ++ " = " ++
    " | ".intercalate ((a.itemsAt "values").map fun v => "'" ++ v.textAt "value" ++ "'")

def fileSection (file : Value) : Section where
  path := file.textAt "path"
  counts := ⟨(file.itemsAt "functions").length, (file.itemsAt "classes").length,
    (file.itemsAt "aliases").length⟩
  functions := (file.itemsAt "functions").map functionOutline
  classes := (file.itemsAt "classes").map classOutline
  aliases := (file.itemsAt "aliases").map aliasOutline

def fileFailures (file : Value) : List String :=
  (file.itemsAt "errors").map fun e =>
    file.textAt "path" ++ ":" ++ toString (e.numberAt "line") ++ ": " ++ e.textAt "message"

/-- The lines of the report, made of nothing but the export. -/
def reportLines (exported : Value) : List String :=
  let files := exported.itemsAt "files"
  let sections := files.map fileSection
  let failures := files.flatMap fileFailures
  sections.flatMap Section.lines ++ (if failures = [] then [] else "" :: failures) ++
    ["", toString files.length ++ " files, " ++ (Section.sum sections).text ++ ", " ++
      toString (exported.numberAt "error_count") ++ " errors"]

theorem param_toJson (p : ParamTree) :
    p.toJson.textAt "name" = p.name ∧ p.toJson.textAt "type" = p.type := by
  obtain ⟨name, type, desc, subparams, values⟩ := p
  rw [ParamTree.toJson]
  exact ⟨rfl, rfl⟩

theorem functionOutline_functionJson (c : Catalog) (f : FunctionDoc) :
    functionOutline (c.functionJson f) = f.outline := by
  have params : ((c.functionJson f).itemsAt "params").map
      (fun p => p.textAt "name" ++ ": " ++ p.textAt "type") =
        f.params.map fun p => p.name ++ ": " ++ p.type.text := by
    change ((c.views [] f.params).1.map ParamTree.toJson).map _ = _
    rw [Catalog.views_eq, List.map_map, List.map_map]
    apply List.map_congr_left
    intro p _
    obtain ⟨name, type, -⟩ := c.paramTree_head [] p
    simp only [Function.comp_apply, param_toJson, name, type]
  have returns : ((c.functionJson f).itemsAt "returns").map (fun r => r.textAt "type") =
      f.returns.map fun r => r.type.text := by
    change (f.returns.map Return.toJson).map _ = _
    rw [List.map_map]
    rfl
  have marks : (c.functionJson f).flagAt "private" = f.isPrivate ∧
      (c.functionJson f).flagAt "deprecated" = f.isDeprecated := by
    obtain ⟨name, summary, params, returns, sample, note, isPrivate, isDeprecated⟩ := f
    cases sample <;> cases note <;> exact ⟨rfl, rfl⟩
  have name : (c.functionJson f).textAt "name" = f.name := rfl
  simp only [functionOutline, params, returns, marks, name, FunctionDoc.outline,
    List.map_eq_nil_iff, List.isEmpty_iff]

theorem classOutline_toJson (c : ClassDoc) : classOutline c.toJson = c.outline := by
  obtain ⟨name, parent, isOpaque, isExact, desc, fields⟩ := c
  have fieldsOf : (ClassDoc.mk name parent isOpaque isExact desc fields).toJson.itemsAt "fields" =
      fields.map Field.toJson := by
    cases parent <;> rfl
  rw [classOutline, fieldsOf, List.length_map]
  cases parent <;> rfl

theorem aliasOutline_toJson (a : AliasDoc) : aliasOutline a.toJson = a.outline := by
  have values : a.toJson.itemsAt "values" = a.values.map Choice.toJson := rfl
  rw [aliasOutline, values, List.map_map]
  rfl

variable {c : Catalog} {withPrivate : Bool} {path : String} {file : FileDoc}

theorem fileSection_fileJson : fileSection (c.fileJson withPrivate path file) =
    { path := path
      counts := Catalog.counts withPrivate file
      functions := (Catalog.shown withPrivate file).map FunctionDoc.outline
      classes := file.classes.map ClassDoc.outline
      aliases := file.aliases.map AliasDoc.outline } := by
  have functions : (c.fileJson withPrivate path file).itemsAt "functions" =
      (Catalog.shown withPrivate file).map c.functionJson := rfl
  have classes : (c.fileJson withPrivate path file).itemsAt "classes" =
      file.classes.map ClassDoc.toJson := rfl
  have aliases : (c.fileJson withPrivate path file).itemsAt "aliases" =
      file.aliases.map AliasDoc.toJson := rfl
  simp only [fileSection, functions, classes, aliases, List.length_map, List.map_map,
    Function.comp_def, functionOutline_functionJson, classOutline_toJson, aliasOutline_toJson]
  rfl

theorem fileFailures_fileJson : fileFailures (c.fileJson withPrivate path file) =
    file.failures.map (Catalog.failureLine path) := by
  have errors : (c.fileJson withPrivate path file).itemsAt "errors" =
      file.failures.map BlockFailure.toJson := rfl
  rw [fileFailures, errors, List.map_map]
  rfl

theorem files_toJson (c : Catalog) (withPrivate : Bool) : (c.toJson withPrivate).itemsAt "files" =
    c.files.map fun (path, file) => c.fileJson withPrivate path file := rfl

theorem sections_toJson (c : Catalog) (withPrivate : Bool) :
    ((c.toJson withPrivate).itemsAt "files").map fileSection = c.sections withPrivate := by
  rw [files_toJson, List.map_map]
  exact List.map_congr_left fun _ _ => fileSection_fileJson

theorem failures_toJson (c : Catalog) (withPrivate : Bool) :
    ((c.toJson withPrivate).itemsAt "files").flatMap fileFailures =
      c.failures.map fun (path, f) => Catalog.failureLine path f := by
  simp only [files_toJson, List.flatMap_map, fileFailures_fileJson, Catalog.failures,
    List.map_flatMap, List.map_map, Function.comp_def]

/-- Two renderers that share no text of their own agree on every catalog. -/
theorem reportLines_toJson (c : Catalog) (withPrivate : Bool) :
    reportLines (c.toJson withPrivate) = c.reportLines withPrivate := by
  have count : (c.toJson withPrivate).numberAt "error_count" = c.failureCount := rfl
  have files : ((c.toJson withPrivate).itemsAt "files").length = c.files.length := by
    rw [files_toJson, List.length_map]
  simp only [reportLines, sections_toJson, failures_toJson, count, files,
    c.reportLines_eq_sections withPrivate, Catalog.failureLines, Catalog.totalsLine,
    c.totals_eq_sum, List.map_eq_nil_iff, List.isEmpty_iff]

end Export
end Annodoc
