import Annodoc.Proofs.Comment.Accounting
import Annodoc.Proofs.Comment.Written

/-!
# The lines behind clauses

Which lines of a comment block each clause was read from: the text behind its tag, and the lines of
inner text right below. The block is read in jumps, from one clause to the next, but no jump misses
a tag, so what was read can be told line by line.
-/

namespace Annodoc.Comment
open Text Grammar
open LineMismatch (atLine)

/-- A line with a tag: the text behind the tag, and the lines of inner text right below. -/
structure TagLine where
  tag : Tag
  text : List Char
  inner : List (List Char)

def tagLines : List (List Char) → List TagLine
  | [] => []
  | line :: below =>
    match splitTag line with
    | some (tag, text) => ⟨tag, text, below.takeWhile isInnerText⟩ :: tagLines below
    | none => tagLines below

/-- What a clause holds was read from a line with its tag, and from the inner lines below. -/
inductive ReadFrom (limit : Nat) (line : TagLine) : Clause → Prop where
  | param {p : Param} {subs : List Param} : line.tag = .param →
      parameter limit LuaType.paramName line.text = .ok p →
      List.Forall₂ (fun inner s => parameter limit Grammar.name inner = .ok s) line.inner subs →
      ReadFrom limit line (.param { p with subparams := subs })
  | returns {t : LuaType} {rest : List Char} : line.tag = .returns →
      LuaType.readWithin limit line.text = .ok (t, rest) →
      ReadFrom limit line (.returns ⟨t, description rest⟩)
  | privateMark : line.tag = .privateMark → ReadFrom limit line .privateMark
  | deprecatedMark : line.tag = .deprecatedMark → ReadFrom limit line .deprecatedMark
  | sample (text : String) : line.tag = .sample → ReadFrom limit line (.sample text)
  | note (text : String) : line.tag = .note → ReadFrom limit line (.note text)

variable {limit index : Nat} {line text next : List Char} {block front below : List (List Char)}

theorem Clause.param?_eq_some_iff {c : Clause} {p : Param} : c.param? = some p ↔ c = .param p := by
  cases c <;> simp [Clause.param?]

theorem Clause.return?_eq_some_iff {c : Clause} {r : Return} :
    c.return? = some r ↔ c = .returns r := by
  cases c <;> simp [Clause.return?]

/-! ## Jumps -/

theorem tagLines_untagged (h : tag? line = none) : tagLines (line :: below) = tagLines below := by
  have untagged : splitTag line = none := by simpa [tag?] using h
  rw [tagLines, untagged]

/-- A jump over lines without tags misses nothing. -/
theorem tagLines_drop (h : ∀ line ∈ front, tag? line = none) (first : front <+: block) :
    tagLines (block.drop front.length) = tagLines block := by
  obtain ⟨below, rfl⟩ := first
  rw [List.drop_left]
  induction front with
  | nil => rfl
  | cons line front ih =>
    obtain ⟨first, others⟩ := List.forall_mem_cons.mp h
    rw [List.cons_append, tagLines_untagged first, ih others]

theorem tag?_of_isEmptyText (h : isEmptyText line = true) : tag? line = none := by
  by_contra tagged
  obtain ⟨t, ht⟩ := Option.ne_none_iff_exists'.mp tagged
  simp [isEmptyText_eq_false_of_tag ht] at h

theorem tag?_of_isInnerText (h : isInnerText line = true) : tag? line = none := by
  by_contra tagged
  obtain ⟨t, ht⟩ := Option.ne_none_iff_exists'.mp tagged
  simp [isInnerText_eq_false_of_tag ht] at h

theorem tagLines_summaryAndClauses (block : List (List Char)) :
    tagLines (summaryAndClauses block).2.2 = tagLines block := by
  have empty : ∀ line ∈ block.takeWhile isEmptyText, tag? line = none := by
    intro line hl
    exact tag?_of_isEmptyText (List.mem_takeWhile_imp hl)
  have skipped := tagLines_drop empty (List.takeWhile_prefix _)
  rw [summaryAndClauses, ← skipped]
  split
  · next rest => rw [rest]
  · next line rest eq =>
    rw [eq]
    split
    · next untagged => rw [tagLines_untagged (Option.isNone_iff_eq_none.mp untagged)]
    · rfl

theorem splitTag_suffix {tag : Tag} (h : splitTag line = some (tag, text)) : text <:+ line := by
  rw [splitTag] at h
  split at h
  · next rest front =>
    obtain ⟨-, rfl⟩ := Prod.mk.inj (Option.some.inj h)
    have word : afterWord ('@' :: rest) <:+ '@' :: rest := List.dropWhile_suffix _
    exact word.trans (front ▸ List.dropWhile_suffix isSpace)
  · cases h

theorem exists_suffix_of_mem_tagLines {t : TagLine} (h : t ∈ tagLines block) :
    ∃ line ∈ block, t.text <:+ line := by
  induction block with
  | nil => simp [tagLines] at h
  | cons line below ih =>
    rw [tagLines] at h
    split at h
    · next tag text split =>
      rcases List.mem_cons.mp h with rfl | h
      · exact ⟨line, List.mem_cons_self, splitTag_suffix split⟩
      · obtain ⟨other, mem, part⟩ := ih h
        exact ⟨other, List.mem_cons_of_mem line mem, part⟩
    · obtain ⟨other, mem, part⟩ := ih h
      exact ⟨other, List.mem_cons_of_mem line mem, part⟩

/-! ## From lines to clauses -/

/-- A parameter is read without its parts, which stand below it. -/
theorem parameter_subparams {name : Reader String} {p : Param}
    (h : parameter limit name text = .ok p) : p.subparams = [] := by
  simp only [parameter, bind_eq_ok_iff] at h
  obtain ⟨_, -, _, -, h⟩ := h
  cases h
  rfl

theorem subparams_readFrom {lines : List (List Char)} {ps : List Param}
    (h : subparams limit index lines = .ok ps) :
    List.Forall₂ (fun line s => parameter limit Grammar.name line = .ok s) lines ps := by
  induction lines generalizing index ps with
  | nil =>
    cases h
    exact .nil
  | cons line lines ih =>
    simp only [subparams, bind_eq_ok_iff] at h
    obtain ⟨p, hp, qs, hqs, h⟩ := h
    cases h
    exact .cons (atLine_eq_ok_iff.mp hp) (ih hqs)

theorem clause_readFrom {tag : Tag} {inner : List (List Char)} {c : Clause}
    (h : clause limit index line tag text (if tag.hasBody then inner else []) next = .ok c) :
    ReadFrom limit ⟨tag, text, inner⟩ c := by
  cases tag with
  | param =>
    simp only [clause, bind_eq_ok_iff] at h
    obtain ⟨p, hp, subs, hs, h⟩ := h
    cases h
    exact .param rfl (atLine_eq_ok_iff.mp hp) (subparams_readFrom hs)
  | returns =>
    simp only [clause, bind_eq_ok_iff] at h
    obtain ⟨⟨t, rest⟩, ht, h⟩ := h
    cases h
    exact .returns rfl (atLine_eq_ok_iff.mp ht)
  | privateMark =>
    simp only [clause, bind_eq_ok_iff] at h
    obtain ⟨-, -, h⟩ := h
    cases h
    exact .privateMark rfl
  | deprecatedMark =>
    simp only [clause, bind_eq_ok_iff] at h
    obtain ⟨-, -, h⟩ := h
    cases h
    exact .deprecatedMark rfl
  | sample =>
    simp only [clause, bind_eq_ok_iff] at h
    obtain ⟨-, -, body, -, h⟩ := h
    cases h
    exact .sample body rfl
  | note =>
    simp only [clause, bind_eq_ok_iff] at h
    obtain ⟨-, -, body, -, h⟩ := h
    cases h
    exact .note body rfl
  | _ => simp [clause, atLine, Except.mapError] at h

/-- The clauses of a block were read from its lines with tags, in the same order. -/
theorem clauses_readFrom {found : List Clause} (h : clauses limit index block = .ok found) :
    List.Forall₂ (ReadFrom limit) (tagLines block) found := by
  fun_induction clauses limit index block generalizing found with
  | case1 =>
    cases h
    exact .nil
  | case2 index line rest empty ih =>
    rw [tagLines_untagged (tag?_of_isEmptyText empty)]
    exact ih h
  | case3 => simp [atLine, Except.mapError] at h
  | case4 index line rest inked tag text split indented =>
    rename_i ih
    simp only [bind_eq_ok_iff] at h
    obtain ⟨c, hc, cs, hcs, h⟩ := h
    cases h
    -- The reader goes on behind the indented lines, none of which has a tag.
    have below : indented <+: rest ∧ ∀ line ∈ indented, tag? line = none := by
      by_cases body : tag.hasBody = true
      · rw [show indented = rest.takeWhile isInnerText from if_pos body]
        refine ⟨List.takeWhile_prefix isInnerText, fun line hl => ?_⟩
        exact tag?_of_isInnerText (List.mem_takeWhile_imp hl)
      · rw [show indented = [] from if_neg body]
        exact ⟨List.nil_prefix, by simp⟩
    have others := ih hcs
    rw [tagLines_drop below.2 below.1] at others
    rw [tagLines, split]
    exact .cons (clause_readFrom hc) others

/-- What is on the right of a match has something on the left. -/
theorem exists_left_of_forall₂ {α β : Type} {R : α → β → Prop} {xs : List α} {ys : List β}
    (h : List.Forall₂ R xs ys) : ∀ y ∈ ys, ∃ x ∈ xs, R x y := by
  induction h with
  | nil => simp
  | @cons x y xs ys related _ ih =>
    refine List.forall_mem_cons.mpr ⟨⟨x, List.mem_cons_self, related⟩, fun z hz => ?_⟩
    obtain ⟨other, mem, related⟩ := ih z hz
    exact ⟨other, List.mem_cons_of_mem x mem, related⟩

/-- The results of a list of attempts, against the list. -/
theorem mapM_eq_some_iff {α β : Type} {f : α → Option β} {xs : List α} {ys : List β} :
    xs.mapM f = some ys ↔ List.Forall₂ (fun y x => f x = some y) ys xs := by
  induction xs generalizing ys with
  | nil => cases ys <;> simp
  | cons x xs ih =>
    simp only [List.mapM_cons, Option.bind_eq_bind, Option.bind_eq_some_iff, ih]
    constructor
    · rintro ⟨y, hy, ys, hys, ⟨⟩⟩
      exact .cons hy hys
    · rintro (_ | ⟨hy, hys⟩)
      exact ⟨_, hy, _, hys, rfl⟩

theorem functionBlock_readFrom {name : String} {lines : List String} {f : FunctionDoc}
    (h : functionBlockWithin limit name lines = .ok f) :
    ∃ (summary : String) (found : List Clause), f = functionOfClauses name summary found ∧
      List.Forall₂ (ReadFrom limit) (tagLines (lines.map body)) found := by
  simp only [functionBlockWithin, bind_eq_ok_iff] at h
  obtain ⟨found, read, h⟩ := h
  cases h
  rw [← tagLines_summaryAndClauses]
  exact ⟨_, found, rfl, clauses_readFrom read⟩

/-! ## Parameters -/

/-- The lines with the tag of a parameter. -/
def paramLines (block : List (List Char)) : List TagLine :=
  (tagLines block).filter (·.tag = .param)

/-- The parameter was read from this line, and its parts from the inner lines below. -/
structure ParamReadFrom (limit : Nat) (line : TagLine) (p : Param) : Prop where
  itself : parameter limit LuaType.paramName line.text = .ok { p with subparams := [] }
  parts : List.Forall₂ (fun inner s => parameter limit Grammar.name inner = .ok s)
    line.inner p.subparams

theorem params_readFrom {lines : List TagLine} {found : List Clause}
    (h : List.Forall₂ (ReadFrom limit) lines found) :
    List.Forall₂ (ParamReadFrom limit) (lines.filter (·.tag = .param))
      (found.filterMap Clause.param?) := by
  induction h with
  | nil => exact .nil
  | @cons line c _ _ read _ ih =>
    cases read with
    | @param p subs tag itself parts =>
      obtain ⟨_, _, _, none⟩ := p
      obtain rfl : none = [] := parameter_subparams itself
      rw [List.filter_cons_of_pos (by simpa using tag)]
      exact .cons ⟨itself, parts⟩ ih
    | _ =>
      rw [List.filter_cons_of_neg (by simp [*])]
      exact ih

/-- A function of a file keeps its comment lines, and its parameters were read from these. -/
theorem params_of_file {source : List String} {f : FunctionDoc}
    (h : f ∈ (fileOfLines source).functions) :
    List.Forall₂ (ParamReadFrom LuaType.depthLimit) (paramLines (f.annotation.map body))
      f.params := by
  obtain ⟨b, o, -, accounts, ho⟩ := exists_block_of_mem h
  cases accounts with
  | functionDoc line lines next declared read =>
    obtain rfl := Option.some.inj ho
    obtain ⟨summary, found, eq, clauses⟩ := functionBlock_readFrom read
    have params := params_readFrom clauses
    have same : _ = found.filterMap Clause.param? := congrArg FunctionDoc.params eq
    rw [← same] at params
    rw [lines]
    exact params
  | _ => cases ho

end Annodoc.Comment
