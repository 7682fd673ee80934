import Annodoc.Proofs.Comment.Written

/-!
# Written function blocks

How a function's documentation is written as comment lines, clause by clause, and that the block is
read as this documentation again. A clause owns the indented lines below its tag, and the tag of
the next clause ends them.
-/

namespace Annodoc
open Text Grammar LuaType

/-- A parameter of its own, whose name is one of those that `Fit` allows. -/
structure Param.Fits (limit : Nat) (Fit : String → Prop) (p : Param) : Prop where
  name : Fit p.name
  type : Admissible limit p.type
  desc : Comment.IsDescription p.desc

namespace Comment

/-- A row of an example or a note: it holds text, and none that is read as a tag. -/
structure IsBodyRow (row : String) : Prop where
  inked : isEmptyText row.toList = false
  noTag : (trim row.toList).head? ≠ some '@'

instance (row : String) : Decidable (IsBodyRow row) :=
  decidable_of_iff (isEmptyText row.toList = false ∧ (trim row.toList).head? ≠ some '@')
    ⟨fun h => ⟨h.1, h.2⟩, fun h => ⟨h.inked, h.noTag⟩⟩

namespace Clause

def tag : Clause → Tag
  | .param _ => .param
  | .returns _ => .returns
  | .privateMark => .privateMark
  | .deprecatedMark => .deprecatedMark
  | .sample _ => .sample
  | .note _ => .note

/-- What is written behind the tag, on its line. -/
def rest : Clause → String
  | .param p => " " ++ p.name ++ typed p.type p.desc
  | .returns r => typed r.type r.desc
  | _ => ""

/-- The lines of a parameter's parts, four spaces in. -/
def subparamTexts (ss : List Param) : List String :=
  ss.map fun s => "    " ++ s.name ++ typed s.type s.desc

/-- The lines of an example or a note, one space in. -/
def bodyTexts (text : String) : List String := (rows text).map (" " ++ ·)

def inner : Clause → List String
  | .param p => subparamTexts p.subparams
  | .sample text => bodyTexts text
  | .note text => bodyTexts text
  | _ => []

def texts (c : Clause) : List String := (c.tag.word ++ c.rest) :: c.inner

/-- What is asked of a clause for its lines to be read as this clause. -/
def Writable (limit : Nat) : Clause → Prop
  | .param p => p.Fits limit IsParamName ∧
      ∀ s ∈ p.subparams, s.Fits limit IsName ∧ s.subparams = []
  | .returns r => Admissible limit r.type ∧ IsDescription r.desc
  | .sample text => ∀ row ∈ rows text, IsBodyRow row
  | .note text => ∀ row ∈ rows text, IsBodyRow row
  | _ => True

end Clause

variable {limit index : Nat} {c : Clause} {b cs : List Char}

/-! ## The lines of one clause -/

theorem splitTag_clause (c : Clause) :
    splitTag (c.tag.word ++ c.rest).toList = some (c.tag, c.rest.toList) := by
  rw [String.toList_append]
  apply splitTag_word
  cases c with
  | param p => simpa [Clause.rest] using by decide
  | returns r => exact isSpace_head_typed
  | _ => simp [Clause.rest]

theorem tag?_clause (c : Clause) : tag? (c.tag.word ++ c.rest).toList = some c.tag := by
  rw [tag?, splitTag_clause, Option.map_some]

theorem isInnerText_indented (hb : Blanks b) (hne : b ≠ []) (inked : isEmptyText cs = false)
    (noTag : (trimStart cs).head? ≠ some '@') : isInnerText (b ++ cs) = true := by
  have spaces : ∀ c ∈ b, isSpace c = true := fun c hc => isSpace_of_isBlank (hb c hc)
  have tag : tag? (b ++ cs) = none := by rwa [tag?_eq_none_iff, trimStart_append spaces]
  have empty : isEmptyText (b ++ cs) = false := by
    rw [isEmptyText] at inked ⊢
    rw [List.all_append, inked, Bool.and_false]
  obtain ⟨d, ds, rfl⟩ := List.exists_cons_of_ne_nil hne
  have blank : isBlank d = true := hb d (by simp)
  rw [isInnerText, tag, empty]
  simp [blank]

theorem isInnerText_row {row : String} (h : IsBodyRow row) :
    isInnerText (" " ++ row).toList = true := by
  rw [String.toList_append]
  refine isInnerText_indented (by decide) (by decide) h.inked ?_
  rw [← head?_trim]
  exact h.noTag

theorem isInnerText_subparam {s : Param} (h : s.Fits limit IsName) :
    isInnerText ("    " ++ s.name ++ typed s.type s.desc).toList = true := by
  obtain ⟨c, w, hw, ident⟩ := h.name.1.exists_ident
  have space := isSpace_eq_false_of_isIdent ident
  rw [String.append_assoc, String.toList_append, String.toList_append, hw, List.cons_append]
  refine isInnerText_indented (by decide) (by decide) (by simp [isEmptyText, space]) ?_
  rw [trimStart_eq_self_iff.mpr (by simpa using space), List.head?_cons]
  rintro ⟨rfl⟩
  exact absurd ident (by decide)

theorem isInnerText_inner (h : c.Writable limit) :
    ∀ line ∈ c.inner.map String.toList, isInnerText line = true := by
  have body {text : String} (h : ∀ row ∈ rows text, IsBodyRow row) :
      ∀ line ∈ (Clause.bodyTexts text).map String.toList, isInnerText line = true := by
    simp only [Clause.bodyTexts, List.forall_mem_map]
    exact fun row hr => isInnerText_row (h row hr)
  cases c with
  | param p =>
    simp only [Clause.inner, Clause.subparamTexts, List.forall_mem_map]
    exact fun s hs => isInnerText_subparam (h.2 s hs).1
  | sample text => exact body h
  | note text => exact body h
  | _ => simp [Clause.inner]

/-! ## Reading one clause -/

theorem subparams_written {ss : List Param}
    (h : ∀ s ∈ ss, s.Fits limit IsName ∧ s.subparams = []) (index : Nat) :
    subparams limit index ((Clause.subparamTexts ss).map String.toList) = .ok ss := by
  induction ss generalizing index with
  | nil => rfl
  | cons s ss ih =>
    obtain ⟨⟨fits, flat⟩, others⟩ := List.forall_mem_cons.mp h
    obtain ⟨name, type, desc, parts⟩ := s
    obtain rfl : parts = [] := flat
    have read := parameter_typed readsNames_name (b := "    ".toList) (by decide) fits.name
      fits.type fits.desc
    rw [← String.toList_append, ← String.toList_append, ← String.append_assoc] at read
    exact bind_eq_ok_iff.mpr ⟨_, atLine_eq_ok_iff.mpr read,
      bind_eq_ok_iff.mpr ⟨ss, ih others (index + 1), rfl⟩⟩

theorem bodyText_written (index : Nat) (text : String) (next : List Char) :
    bodyText index ((Clause.bodyTexts text).map String.toList) next = .ok text := by
  have unindented (row : String) : String.ofList ((" " ++ row).toList.drop 1) = row := by simp
  rw [bodyText, if_neg (by simp [Clause.bodyTexts, rows_ne_nil]), Clause.bodyTexts, List.map_map,
    List.map_map]
  simp only [Function.comp_def, unindented, List.map_id', unlines_rows]

theorem clause_written (h : c.Writable limit) (line next : List Char) :
    clause limit index line c.tag c.rest.toList (c.inner.map String.toList) next = .ok c := by
  cases c with
  | param p =>
    obtain ⟨fits, subs⟩ := h
    obtain ⟨name, type, desc, parts⟩ := p
    have read := parameter_typed readsNames_paramName (b := " ".toList) (by decide) fits.name
      fits.type fits.desc
    rw [← String.toList_append, ← String.toList_append, ← String.append_assoc] at read
    exact bind_eq_ok_iff.mpr ⟨_, atLine_eq_ok_iff.mpr read,
      bind_eq_ok_iff.mpr ⟨parts, subparams_written subs (index + 1), rfl⟩⟩
  | returns r =>
    obtain ⟨type, desc⟩ := h
    refine bind_eq_ok_iff.mpr ⟨_, atLine_eq_ok_iff.mpr (readWithin_typed type desc), ?_⟩
    simp only [description_trailing desc]
  | privateMark => rfl
  | deprecatedMark => rfl
  | sample text =>
    exact bind_eq_ok_iff.mpr ⟨(), rfl,
      bind_eq_ok_iff.mpr ⟨text, bodyText_written (index + 1) text next, rfl⟩⟩
  | note text =>
    exact bind_eq_ok_iff.mpr ⟨(), rfl,
      bind_eq_ok_iff.mpr ⟨text, bodyText_written (index + 1) text next, rfl⟩⟩

/-! ## All clauses -/

/-- The lines of a clause are read as this clause, up to a line that is not indented. -/
theorem clauses_append (h : c.Writable limit) {below : List (List Char)} {cs : List Clause}
    (ends : ∀ line ∈ below.head?, isInnerText line = false)
    (read : clauses limit (index + 1 + c.inner.length) below = .ok cs) :
    clauses limit index (c.texts.map String.toList ++ below) = .ok (c :: cs) := by
  have tag := splitTag_clause c
  have inked := isEmptyText_eq_false_of_tag (tag?_clause c)
  have mine := takeWhile_append_exact (isInnerText_inner h) ends
  have indented : (if c.tag.hasBody then
      (c.inner.map String.toList ++ below).takeWhile isInnerText else []) =
        c.inner.map String.toList := by
    rw [mine]
    cases c <;> rfl
  rw [Clause.texts, List.map_cons, List.cons_append, clauses, inked, if_neg Bool.false_ne_true,
    tag]
  simp only [indented]
  refine bind_eq_ok_iff.mpr ⟨c, clause_written h _ _, bind_eq_ok_iff.mpr ⟨cs, ?_, rfl⟩⟩
  simpa using read

theorem clauses_written {cs : List Clause} (h : ∀ c ∈ cs, c.Writable limit) :
    clauses limit index ((cs.flatMap Clause.texts).map String.toList) = .ok cs := by
  induction cs generalizing index with
  | nil => simp [clauses]
  | cons c cs ih =>
    obtain ⟨first, others⟩ := List.forall_mem_cons.mp h
    rw [List.flatMap_cons, List.map_append]
    refine clauses_append first ?_ (ih others)
    cases cs with
    | nil => simp
    | cons d ds =>
      -- The next clause begins with a tag, which ends the indented lines of this one.
      intro line hl
      obtain rfl : (d.tag.word ++ d.rest).toList = line := by simpa [Clause.texts] using hl
      exact isInnerText_eq_false_of_tag (tag?_clause d)

end Comment

open Comment

/-- The clauses of a function's documentation: parameters, results, marks, example and note. -/
def FunctionDoc.clauses (f : FunctionDoc) : List Clause :=
  f.params.map .param ++ f.returns.map .returns ++
    (if f.isPrivate then [.privateMark] else []) ++
    (if f.isDeprecated then [.deprecatedMark] else []) ++
    f.sample.toList.map .sample ++ f.note.toList.map .note

/-- The comment lines of a function's documentation: the summary unless it is empty, then the
clauses. -/
def FunctionDoc.written (f : FunctionDoc) : List String :=
  ((if f.summary = "" then [] else [f.summary]) ++ f.clauses.flatMap Clause.texts).map marked

/-- Documentation of a function that comes back from its comment lines. -/
structure FunctionDoc.Writable (f : FunctionDoc) : Prop where
  summaryTrimmed : IsTrimmed f.summary.toList
  summaryNoTag : f.summary.toList.head? ≠ some '@'
  params : ∀ p ∈ f.params, p.Fits depthLimit IsParamName ∧
    ∀ s ∈ p.subparams, s.Fits depthLimit IsName ∧ s.subparams = []
  returns : ∀ r ∈ f.returns, Admissible depthLimit r.type ∧ IsDescription r.desc
  sample : ∀ text ∈ f.sample, ∀ row ∈ rows text, IsBodyRow row
  note : ∀ text ∈ f.note, ∀ row ∈ rows text, IsBodyRow row

theorem FunctionDoc.Writable.clauses {f : FunctionDoc} (h : f.Writable) :
    ∀ c ∈ f.clauses, c.Writable depthLimit := by
  have mark {b : Bool} {c d : Clause} (hd : d.Writable depthLimit)
      (hc : c ∈ if b then [d] else []) : c.Writable depthLimit := by
    cases b with
    | false => simp at hc
    | true =>
      obtain rfl : c = d := by simpa using hc
      exact hd
  intro c hc
  simp only [FunctionDoc.clauses, List.mem_append, List.mem_map, Option.mem_toList] at hc
  rcases hc with ((((⟨p, hp, rfl⟩ | ⟨r, hr, rfl⟩) | hc) | hc) | ⟨text, ht, rfl⟩) | ⟨text, ht, rfl⟩
  · exact h.params p hp
  · exact h.returns r hr
  · exact mark (d := .privateMark) trivial hc
  · exact mark (d := .deprecatedMark) trivial hc
  · exact h.sample text ht
  · exact h.note text ht

theorem FunctionDoc.filterMap_clauses {α : Type} (f : FunctionDoc) (g : Clause → Option α) :
    f.clauses.filterMap g =
      (f.params.filterMap fun p => g (.param p)) ++ (f.returns.filterMap fun r => g (.returns r)) ++
        (if f.isPrivate then (g .privateMark).toList else []) ++
        (if f.isDeprecated then (g .deprecatedMark).toList else []) ++
        (f.sample.toList.filterMap fun t => g (.sample t)) ++
        f.note.toList.filterMap fun t => g (.note t) := by
  have mark (b : Bool) (c : Clause) : (if b then [c] else []).filterMap g =
      if b then (g c).toList else [] := by
    cases b with
    | false => rfl
    | true => cases h : g c <;> simp [h]
  simp only [FunctionDoc.clauses, List.filterMap_append, List.filterMap_map, mark,
    Function.comp_def]

/-- Each list of the documentation is what the clauses of its kind hold, and everything else is
told by one clause at most. -/
theorem functionOfClauses_clauses (f : FunctionDoc) :
    functionOfClauses f.name f.summary f.clauses = { f with annotation := [], line := 0 } := by
  have params : f.clauses.filterMap Clause.param? = f.params := by
    simp [f.filterMap_clauses, Clause.param?]
  have returns : f.clauses.filterMap Clause.return? = f.returns := by
    simp [f.filterMap_clauses, Clause.return?]
  have sample : f.clauses.filterMap Clause.sample? = f.sample.toList := by
    simp [f.filterMap_clauses, Clause.sample?]
  have note : f.clauses.filterMap Clause.note? = f.note.toList := by
    simp [f.filterMap_clauses, Clause.note?]
  have isPrivate : f.clauses.any Clause.isPrivate = f.isPrivate := by
    cases hp : f.isPrivate <;> cases hd : f.isDeprecated <;>
      simp [FunctionDoc.clauses, hp, hd, Clause.isPrivate, Function.comp_def]
  have isDeprecated : f.clauses.any Clause.isDeprecated = f.isDeprecated := by
    cases hp : f.isPrivate <;> cases hd : f.isDeprecated <;>
      simp [FunctionDoc.clauses, hp, hd, Clause.isDeprecated, Function.comp_def]
  rw [functionOfClauses, params, returns, sample, note, isPrivate, isDeprecated]
  cases f.sample <;> cases f.note <;> rfl

namespace Comment

theorem summaryAndClauses_cons {line : List Char} {rest : List (List Char)}
    (h : isEmptyText line = false) :
    summaryAndClauses (line :: rest) =
      if (tag? line).isNone then (String.ofList (trim line), 1, rest)
      else ("", 0, line :: rest) := by
  rw [summaryAndClauses, List.takeWhile_cons_of_neg (by simp [h])]
  rfl

theorem summaryAndClauses_written {summary : String} (cs : List Clause)
    (trimmed : IsTrimmed summary.toList) (noTag : summary.toList.head? ≠ some '@') :
    ∃ index, summaryAndClauses
      (((if summary = "" then [] else [summary]) ++ cs.flatMap Clause.texts).map String.toList) =
        (summary, index, (cs.flatMap Clause.texts).map String.toList) := by
  by_cases hs : summary = ""
  · subst hs
    rw [if_pos rfl, List.nil_append]
    cases cs with
    | nil => exact ⟨0, rfl⟩
    | cons c cs =>
      have tag := tag?_clause c
      refine ⟨0, ?_⟩
      rw [List.flatMap_cons, Clause.texts, List.cons_append, List.map_cons,
        summaryAndClauses_cons (isEmptyText_eq_false_of_tag tag), tag]
      rfl
  · have inked := trimmed.isEmptyText_eq_false (by simpa using hs)
    have untagged : tag? summary.toList = none := by
      rwa [tag?_eq_none_iff, trimmed.trimStart_eq]
    have whole : trim summary.toList = summary.toList := trimmed
    refine ⟨1, ?_⟩
    rw [if_neg hs, List.singleton_append, List.map_cons, summaryAndClauses_cons inked, untagged,
      whole, String.ofList_toList]
    rfl

/-- A function's documentation comes back from its comment lines, except for what they tell about
the place where they stand. -/
theorem functionBlock_written (f : FunctionDoc) (h : f.Writable) :
    functionBlock f.name f.written = .ok { f with annotation := [], line := 0 } := by
  obtain ⟨index, split⟩ := summaryAndClauses_written f.clauses h.summaryTrimmed
    h.summaryNoTag
  have bodies : f.written.map body = ((if f.summary = "" then [] else [f.summary]) ++
      f.clauses.flatMap Clause.texts).map String.toList := by
    simp [FunctionDoc.written, List.map_map, Function.comp_def]
  rw [functionBlock, functionBlockWithin, bodies, split]
  exact bind_eq_ok_iff.mpr ⟨f.clauses, clauses_written h.clauses,
    congrArg Except.ok (functionOfClauses_clauses f)⟩

theorem functionBlock_written_table_argument :
    let f : FunctionDoc :=
      { name := "M.open"
        summary := "Opens a file"
        params := [⟨"opts", .keyword .table, "[how]", [⟨"mode", .keyword .string, "", []⟩]⟩,
          ⟨"...", .keyword .any, "", []⟩]
        returns := [⟨.function [] none, "closes it"⟩]
        sample := some " f = M.open()\nf()"
        note := none
        isPrivate := true
        isDeprecated := false }
    f.written = ["---Opens a file", "---@param opts table [how]", "---    mode string",
      "---@param ... any", "---@return fun() closes it", "---@private", "---@example",
      "---  f = M.open()", "--- f()"] ∧
    functionBlock f.name f.written = .ok f := by
  intro f
  refine ⟨by decide, functionBlock_written f ⟨by decide, by decide, ?_, ?_,
    ?_, nofun⟩⟩
  · have opts : Param.Fits depthLimit IsParamName f.params[0] :=
      ⟨.inr (by decide), admissible_keyword .table, by decide⟩
    have mode : Param.Fits depthLimit IsName f.params[0].subparams[0] :=
      ⟨by decide, admissible_keyword .string, by decide⟩
    have dots : Param.Fits depthLimit IsParamName f.params[1] :=
      ⟨.inl rfl, admissible_keyword .any, by decide⟩
    simpa [f] using ⟨⟨opts, mode⟩, dots⟩
  · have closing : Admissible depthLimit (.function [] none) := admissible_function.mpr (by simp)
    simpa [f] using ⟨closing, (by decide : IsDescription "closes it")⟩
  · have body : ∀ row ∈ rows " f = M.open()\nf()", IsBodyRow row := by decide
    simpa [f] using body

end Comment
end Annodoc
