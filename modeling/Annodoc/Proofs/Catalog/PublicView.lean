import Annodoc.Proofs.Catalog.Lookup
import Annodoc.Proofs.Catalog.Sections

/-!
# What is private has no influence

The view of a parameter depends on what the catalog answers for names, and there only on which
classes are known and what their public fields are. So two catalogs that differ in private
functions, and in fields that are not for everybody, document the other functions alike.
-/

namespace Annodoc
open Json

/-- The functions that are not marked as private. -/
def FileDoc.publicFunctions (file : FileDoc) : List FunctionDoc :=
  file.functions.filter fun f => !f.isPrivate

namespace Catalog

/-- Two catalogs that answer alike wherever a view asks. -/
structure SameAnswers (c d : Catalog) : Prop where
  names : ∀ text, (c.class? text).map ClassDoc.name = (d.class? text).map ClassDoc.name
  params : ∀ text, c.classParams text = d.classParams text
  values : ∀ text, c.aliasValues text = d.aliasValues text

variable {c d : Catalog}

theorem paramTree_eq_mk (c : Catalog) (expanding : List String) (p : Param) :
    c.paramTree expanding p = ⟨p.name, p.type.text, p.desc,
      (c.paramTree expanding p).subparams, c.aliasValues p.type.text⟩ := by
  obtain ⟨name, type, desc, values⟩ := c.paramTree_head expanding p
  rw [← values, ← name, ← type, ← desc]
  cases c.paramTree expanding p
  rfl

namespace SameAnswers

theorem class?_eq_none (h : SameAnswers c d) {text : String} (unknown : c.class? text = none) :
    d.class? text = none := by
  have names := h.names text
  rw [unknown, Option.map_none] at names
  exact Option.map_eq_none_iff.mp names.symm

theorem exists_class? (h : SameAnswers c d) {text : String} {cls : ClassDoc}
    (found : c.class? text = some cls) : ∃ k, d.class? text = some k ∧ k.name = cls.name := by
  have names := h.names text
  rw [found, Option.map_some] at names
  exact Option.map_eq_some_iff.mp names.symm

/-- At every depth both catalogs expand the same classes, and cut the view at the same places. -/
theorem paramTree_eq (h : SameAnswers c d) (expanding : List String) (p : Param) :
    c.paramTree expanding p = d.paramTree expanding p := by
  suffices below : (c.paramTree expanding p).subparams = (d.paramTree expanding p).subparams by
    rw [paramTree_eq_mk c, paramTree_eq_mk d, below, h.values]
  by_cases written : p.subparams = []
  · cases found : c.class? p.type.text with
    | none =>
      rw [subparams_of_unknown written found, subparams_of_unknown written (h.class?_eq_none found)]
    | some cls =>
      obtain ⟨k, found', name⟩ := h.exists_class? found
      by_cases busy : cls.name ∈ expanding
      · rw [subparams_of_busy written found busy,
          subparams_of_busy written found' (name ▸ busy)]
      · rw [subparams_of_new written found busy, subparams_of_new written found' (name ▸ busy),
          name, h.params]
        apply List.map_congr_left
        intro q _
        -- One more class is on the stack now.
        have fewer := unexpanded_lt found busy
        exact paramTree_eq h (cls.name :: expanding) q
  · rw [subparams_of_written written, subparams_of_written written]
    apply List.map_congr_left
    intro q hq
    have smaller : sizeOf q < sizeOf p := by
      have inside := List.sizeOf_lt_of_mem hq
      cases p with
      | mk name type desc subparams =>
        simp only [Param.mk.sizeOf_spec] at inside ⊢
        omega
    exact paramTree_eq h expanding q
termination_by (c.unexpanded expanding, sizeOf p)
decreasing_by
  · exact Prod.Lex.left _ _ fewer
  · exact Prod.Lex.right _ smaller

theorem functionJson_eq (h : SameAnswers c d) : c.functionJson = d.functionJson := by
  have views : ∀ ps, (c.views [] ps).1 = (d.views [] ps).1 := by
    intro ps
    rw [views_eq, views_eq]
    exact List.map_congr_left fun p _ => h.paramTree_eq [] p
  funext f
  rw [functionJson, functionJson, views]

theorem fileJson_eq (h : SameAnswers c d) : c.fileJson = d.fileJson := by
  funext withPrivate path file
  rw [fileJson, fileJson, h.functionJson_eq]

end SameAnswers

/-! ## Two catalogs with the same public part -/

/-- Two catalogs with the same paths, the same functions that are not private at each of them, the
same aliases, and the same names of classes, with the same public fields and marks. -/
structure SamePublicly (c d : Catalog) : Prop where
  paths : c.files.map Prod.fst = d.files.map Prod.fst
  functions : (c.files.map fun (_, file) => file.publicFunctions) =
    d.files.map fun (_, file) => file.publicFunctions
  aliases : ∀ name, c.aliasNamed? name = d.aliasNamed? name
  classes : ∀ name, (c.classNamed? name).map (fun k => (k.isOpaque, k.publicParams)) =
    (d.classNamed? name).map fun k => (k.isOpaque, k.publicParams)

theorem shown_false (file : FileDoc) : shown false file = file.publicFunctions := by
  simp only [shown, FileDoc.publicFunctions, Bool.false_or]

namespace SamePublicly

/-- Whether a class is known, and what may stand for it, is all that is asked of it. -/
theorem sameAnswers (h : SamePublicly c d) : SameAnswers c d := by
  have values : ∀ text, c.aliasValues text = d.aliasValues text := by
    intro text
    rw [aliasValues, aliasValues, alias?_eq_aliasNamed?, alias?_eq_aliasNamed?, h.aliases]
  have classes : ∀ text, (c.class? text = none ∧ d.class? text = none) ∨
      ∃ a b, c.class? text = some a ∧ d.class? text = some b ∧ a.name = b.name ∧
        a.isOpaque = b.isOpaque ∧ a.publicParams = b.publicParams := by
    intro text
    have same := h.classes (nameAsked text)
    rw [← class?_eq_classNamed?, ← class?_eq_classNamed?] at same
    cases hc : c.class? text with
    | none =>
      rw [hc, Option.map_none] at same
      exact .inl ⟨rfl, Option.map_eq_none_iff.mp same.symm⟩
    | some a =>
      rw [hc, Option.map_some] at same
      obtain ⟨b, hd, eq⟩ := Option.map_eq_some_iff.mp same.symm
      obtain ⟨marks, params⟩ := Prod.mk.inj eq
      have name : a.name = b.name := (name_of_classNamed? hc).trans (name_of_classNamed? hd).symm
      exact .inr ⟨a, b, rfl, hd, name, marks.symm, params.symm⟩
  refine ⟨fun text => ?_, fun text => ?_, values⟩
  · rcases classes text with ⟨hc, hd⟩ | ⟨a, b, hc, hd, name, -, -⟩
    · rw [hc, hd]
    · rw [hc, hd, Option.map_some, Option.map_some, name]
  · rcases classes text with ⟨hc, hd⟩ | ⟨a, b, hc, hd, -, marks, params⟩
    · rw [classParams_of_unknown hc, classParams_of_unknown hd]
    · rw [classParams_of_class? hc, classParams_of_class? hd, marks, params]

theorem shown_eq (h : SamePublicly c d) :
    (c.files.map fun (path, file) => (path, shown false file)) =
      d.files.map fun (path, file) => (path, shown false file) := by
  have both (e : Catalog) : (e.files.map fun (path, file) => (path, shown false file)) =
      (e.files.map Prod.fst).zip (e.files.map fun (_, file) => file.publicFunctions) := by
    simp only [List.zip_map', shown_false]
  rw [both c, both d, h.paths, h.functions]

end SamePublicly

/-- Catalogs with the same public part have the same functions in their exports, with all that
stands below the parameters, as long as private functions are left out. In the reports the
sections of the files count the same functions and show them by the same lines. -/
theorem public_functions_eq (c d : Catalog) (h : SamePublicly c d) :
    ((c.toJson false).itemsAt "files").map (fun file => file.member? "functions") =
      ((d.toJson false).itemsAt "files").map (fun file => file.member? "functions") ∧
    (c.sections false).map (fun s => (s.path, s.counts.functions, s.functions)) =
      (d.sections false).map (fun s => (s.path, s.counts.functions, s.functions)) ∧
    (c.totals false).functions = (d.totals false).functions ∧
    ∀ e ∈ [c, d], e.report false = String.join (((e.sections false).flatMap Section.lines ++
      e.failureLines ++ ["", e.totalsLine false]).map (· ++ "\n")) := by
  have sections : (c.sections false).map (fun s => (s.path, s.counts.functions, s.functions)) =
      (d.sections false).map (fun s => (s.path, s.counts.functions, s.functions)) := by
    have part (e : Catalog) :
        (e.sections false).map (fun s => (s.path, s.counts.functions, s.functions)) =
          (e.files.map fun (path, file) => (path, shown false file)).map fun (path, fs) =>
            (path, fs.length, fs.map FunctionDoc.outline) := by
      simp only [Catalog.sections, List.map_map, Function.comp_def, counts]
    rw [part c, part d, h.shown_eq]
  refine ⟨?_, sections, ?_, ?_⟩
  · have part (e : Catalog) :
        ((e.toJson false).itemsAt "files").map (fun file => file.member? "functions") =
          (e.files.map fun (path, file) => (path, shown false file)).map fun (_, fs) =>
            some (.array (fs.map e.functionJson)) := by
      rw [Export.files_toJson, List.map_map, List.map_map]
      rfl
    rw [part c, part d, h.shown_eq, h.sameAnswers.functionJson_eq]
  · have total (e : Catalog) : (e.totals false).functions =
        (((e.sections false).map (fun s => (s.path, s.counts.functions, s.functions))).map
          fun s => s.2.1).sum := by
      rw [totals_eq_sum, Section.sum, List.map_map]
      rfl
    rw [total c, total d, sections]
  · intro e _
    rw [report, reportLines_eq_sections]

theorem public_functions_eq_private_field :
    let next : Field :=
      ⟨.named "next" none, .union [.keyword .nil, .named ["x", "A"] false], "another one"⟩
    let secret : Field := ⟨.named "secret" (some .scopePrivate), .keyword .string, ""⟩
    let keyed : Field := ⟨.keyed (.keyword .string), .keyword .any, ""⟩
    let shownDoc : FunctionDoc := ⟨"M.open", "", [⟨"first", .named ["x", "A"] false, "", []⟩], [],
      none, none, false, false, [], 3⟩
    let hiddenDoc : FunctionDoc := ⟨"M.hide", "", [], [], none, none, true, false, [], 9⟩
    let c := ofFiles [("a.lua",
      ⟨[hiddenDoc, shownDoc], [⟨"x.A", none, false, false, "", [next, secret]⟩], [], []⟩)]
    let d := ofFiles [("a.lua",
      ⟨[shownDoc], [⟨"x.A", none, false, true, "Keys", [keyed, next]⟩], [], []⟩)]
    SamePublicly c d ∧
    ((c.toJson false).itemsAt "files").map (fun file => file.member? "functions") =
      ((d.toJson false).itemsAt "files").map (fun file => file.member? "functions") ∧
    (c.sections false).map (fun s => (s.path, s.counts.functions, s.functions)) =
      [("a.lua", 1, ["M.open(first: x.A)"])] ∧
    (d.sections false).map (fun s => (s.path, s.counts.functions, s.functions)) =
      [("a.lua", 1, ["M.open(first: x.A)"])] ∧
    (c.totals true).functions = 2 ∧ (d.totals true).functions = 1 := by
  intro next secret keyed shownDoc hiddenDoc c d
  have same : SamePublicly c d := by
    refine ⟨rfl, rfl, fun _ => rfl, fun name => ?_⟩
    by_cases h : "x.A" = name
    · subst h
      rfl
    · simp [c, d, ofFiles, add, empty, classNamed?, h]
  obtain ⟨functions, sections, -⟩ := public_functions_eq c d same
  have shows : (d.sections false).map (fun s => (s.path, s.counts.functions, s.functions)) =
      [("a.lua", 1, ["M.open(first: x.A)"])] := by decide
  exact ⟨same, functions, sections.trans shows, shows, rfl, rfl⟩

end Catalog
end Annodoc
