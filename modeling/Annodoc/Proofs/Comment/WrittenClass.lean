import Annodoc.Comment.ClassBlock
import Annodoc.Proofs.Comment.Written

/-!
# Written class blocks

How a class is written as comment lines, and that the block is read as this class again. The three
forms of a field do not overlap: a bracket is no name, and a word for a scope is taken as one.
-/

namespace Annodoc
open Text Grammar LuaType Comment

/-- What is written behind the tag of a field. -/
def Field.written (f : Field) : String :=
  match f.key with
  | .keyed key => "[" ++ key.text ++ "]" ++ typed f.type f.desc
  | .named name none => name ++ typed f.type f.desc
  | .named name (some scope) => scope.text ++ " " ++ name ++ typed f.type f.desc

def ClassDoc.parentText (c : ClassDoc) : String := c.parent.elim "" (" : " ++ ·)

/-- What stands behind the tag of a class: the mark of an exact class, the name and the parent. -/
def ClassDoc.header (c : ClassDoc) : String :=
  (if c.isExact then "(exact) " else "") ++ c.name ++ c.parentText

/-- The lines that describe a class, none if the description is empty. -/
def ClassDoc.aboutTexts (c : ClassDoc) : List String := if c.desc = "" then [] else rows c.desc

/-- The lines below the header: the mark of an opaque class, and the fields. -/
def ClassDoc.memberTexts (c : ClassDoc) : List String :=
  (if c.isOpaque then [Tag.opaqueMark.word] else []) ++
    c.fields.map fun f => Tag.field.word ++ " " ++ f.written

def ClassDoc.written (c : ClassDoc) : List String :=
  (c.aboutTexts ++ (Tag.classHeader.word ++ " " ++ c.header) :: c.memberTexts).map marked

/-- A name without a scope is none of the words for scopes. -/
def FieldKey.Writable : FieldKey → Prop
  | .keyed key => Admissible depthLimit key
  | .named name none => IsName name ∧ ∀ scope : Scope, name ≠ scope.text
  | .named name (some _) => IsName name

structure Field.Writable (f : Field) : Prop where
  key : f.key.Writable
  type : Admissible depthLimit f.type
  desc : IsDescription f.desc

/-- Lines that may describe a class: trimmed ones without a tag, and text in the outer ones. -/
structure IsAbout (desc : String) : Prop where
  row : ∀ row ∈ rows desc, IsTrimmed row.toList ∧ row.toList.head? ≠ some '@'
  first : ∀ row ∈ (rows desc).head?, row ≠ ""
  last : ∀ row ∈ (rows desc).getLast?, row ≠ ""

/-- A class that comes back from its comment lines. -/
structure ClassDoc.Writable (c : ClassDoc) : Prop where
  named : c.name ≠ ""
  name : Spaceless c.name.toList
  nameNoColon : ':' ∉ c.name.toList
  nameNotExact : ¬"(exact)".toList <+: c.name.toList
  parent : ∀ p ∈ c.parent, p ≠ "" ∧ Spaceless p.toList
  desc : c.desc = "" ∨ IsAbout c.desc
  someField : c.fields ≠ []
  fields : ∀ f ∈ c.fields, f.Writable

namespace Comment

variable {limit : Nat} {c : ClassDoc} {f : Field} {t : LuaType} {name desc : String}
  {rest w : List Char}

/-! ## Fields -/

theorem isName_text (scope : Scope) : IsName scope.text := by cases scope <;> decide

theorem scopeOfText?_text (scope : Scope) : Scope.ofText? scope.text = some scope := by
  cases scope <;> decide

theorem scopeOfText?_eq_none_iff :
    Scope.ofText? name = none ↔ ∀ scope : Scope, name ≠ scope.text := by
  have all (scope : Scope) : scope ∈ Scope.all := by cases scope <;> decide
  simp only [Scope.ofText?, List.find?_eq_none, decide_eq_true_eq]
  constructor
  · intro h scope eq
    exact h scope (all scope) eq.symm
  · intro h scope _ eq
    exact h scope eq.symm

theorem namedField_typed (scope : Option Scope) (ht : Admissible limit t)
    (hd : IsDescription desc) : namedField limit scope name (typed t desc).toList =
      .ok ⟨.named name scope, t, desc⟩ := by
  have read := readWithin_typed ht hd
  rw [namedField, questionMark_of_read read]
  refine bind_eq_ok_iff.mpr ⟨_, read, ?_⟩
  simp only [description_trailing hd, ofPlace]
  rfl

theorem keyedField_typed {key : LuaType} (hk : Admissible limit key) (ht : Admissible limit t)
    (hd : IsDescription desc) :
    keyedField limit (key.text.toList ++ ']' :: (typed t desc).toList) =
      .ok ⟨.keyed key, t, desc⟩ := by
  have bracket : mark? ']' (']' :: (typed t desc).toList) = some (typed t desc).toList := by
    rw [mark?, dropBlanks_cons rfl]
    rfl
  have read := readWithin_text hk blanks_nil (stops_of_mark? bracket (by decide) hk)
  refine bind_eq_ok_iff.mpr ⟨_, read, bind_eq_ok_iff.mpr ⟨_, mark_eq_ok_iff.mpr bracket,
    bind_eq_ok_iff.mpr ⟨_, readWithin_typed ht hd, ?_⟩⟩⟩
  simp only [description_trailing hd]

/-- A field whose text begins with a name is no keyed one, and is read by that name. -/
theorem field_of_name (limit : Nat) (hn : IsName name) (he : IdentEnds rest) :
    (Scope.ofText? name = none → field limit (' ' :: (name.toList ++ rest)) =
      namedField limit none name rest) ∧
    ∀ scope f, Scope.ofText? name = some scope → fieldWithScope limit scope rest = .ok f →
      field limit (' ' :: (name.toList ++ rest)) = .ok f := by
  obtain ⟨c, w, hw, ident⟩ := hn.1.exists_ident
  have front : dropBlanks (' ' :: (name.toList ++ rest)) = name.toList ++ rest :=
    dropBlanks_inked (b := [' ']) (by decide) hn.1.exists_cons rest
  have read : Grammar.name (name.toList ++ rest) = .ok (name, rest) :=
    name_eq_ok_iff.mpr ⟨hn, rfl, he⟩
  rw [field, front]
  split
  · rename_i r bracket
    rw [hw, List.cons_append] at bracket
    obtain rfl : c = '[' := (List.cons.inj bracket).1
    exact absurd ident (by decide)
  · constructor
    · intro noScope
      simp only [read, noScope]
    · intro scope f found ok
      simp only [read, found, ok]

theorem fieldWithScope_typed (scope : Scope) (hn : IsName name) (ht : Admissible limit t)
    (hd : IsDescription desc) :
    fieldWithScope limit scope (' ' :: (name.toList ++ (typed t desc).toList)) =
      .ok ⟨.named name (some scope), t, desc⟩ := by
  have front : dropBlanks (' ' :: (name.toList ++ (typed t desc).toList)) =
      name.toList ++ (typed t desc).toList :=
    dropBlanks_inked (b := [' ']) (by decide) hn.1.exists_cons _
  rw [fieldWithScope, front]
  exact bind_eq_ok_iff.mpr ⟨_, name_eq_ok_iff.mpr ⟨hn, rfl, identEnds_typed t desc⟩,
    namedField_typed (some scope) ht hd⟩

theorem field_written (h : f.Writable) : field depthLimit (" " ++ f.written).toList = .ok f := by
  obtain ⟨key, t, desc⟩ := f
  obtain ⟨hk, ht, hd⟩ := h
  cases key with
  | keyed key =>
    have read := keyedField_typed hk ht hd
    simpa [Field.written, field, dropBlanks, isBlank] using read
  | named name scope =>
    cases scope with
    | none =>
      obtain ⟨hn, noScope⟩ := hk
      have read := (field_of_name depthLimit hn (identEnds_typed t desc)).1
        (scopeOfText?_eq_none_iff.mpr noScope)
      rw [namedField_typed none ht hd] at read
      simpa [Field.written] using read
    | some scope =>
      have ends : IdentEnds (' ' :: (name.toList ++ (typed t desc).toList)) := by
        simpa [IdentEnds] using by decide
      have read := (field_of_name depthLimit (isName_text scope) ends).2 scope _
        (scopeOfText?_text scope) (fieldWithScope_typed scope hk ht hd)
      simpa [Field.written] using read

theorem members_written {fs : List Field} (h : ∀ f ∈ fs, f.Writable) (index : Nat)
    (markAllowed : Bool) : members depthLimit index markAllowed
      ((fs.map fun f => Tag.field.word ++ " " ++ f.written).map String.toList) =
        .ok (false, fs) := by
  induction fs generalizing index markAllowed with
  | nil => rfl
  | cons f fs ih =>
    obtain ⟨first, others⟩ := List.forall_mem_cons.mp h
    rw [List.map_cons, List.map_cons, members, splitTag_before]
    exact bind_eq_ok_iff.mpr ⟨f, atLine_eq_ok_iff.mpr (field_written first),
      bind_eq_ok_iff.mpr ⟨_, ih others (index + 1) false, rfl⟩⟩

/-! ## Headers -/

theorem isSpace_head_parentText (c : ClassDoc) :
    ∀ ch ∈ c.parentText.toList.head?, isSpace ch = true := by
  rw [ClassDoc.parentText]
  cases c.parent with
  | none => simp
  | some p => simpa using by decide

theorem parentClass_written (h : c.Writable) :
    parentClass c.parentText.toList = .ok (c.parent, []) := by
  rw [ClassDoc.parentText]
  cases found : c.parent with
  | none => rfl
  | some p =>
    obtain ⟨ne, spaces⟩ := h.parent p found
    have ne : p.toList ≠ [] := by simpa using ne
    have colon : mark? ':' (" : " ++ p).toList = some ([' '] ++ p.toList) := by
      simp [mark?, dropBlanks, isBlank]
    have front := dropBlanks_inked (b := [' ']) (by decide) (exists_cons_of_spaceless ne spaces) []
    rw [List.append_nil] at front
    have word : wordPart p.toList = p.toList :=
      List.takeWhile_eq_self_iff.mpr (by simpa [Spaceless] using spaces)
    have after : afterWord p.toList = [] :=
      List.dropWhile_eq_nil_iff.mpr (by simpa [Spaceless] using spaces)
    rw [parentClass, Option.elim_some, colon]
    simp only [front, word, after, ne, if_false, String.ofList_toList]

/-- A literal that does not stand at the front of a word does not go on behind it either. -/
theorem literal?_append_eq_none (lit : String) (hl : Spaceless lit.toList)
    (hw : ¬lit.toList <+: w) (hr : ∀ ch ∈ rest.head?, isSpace ch = true) :
    literal? lit (w ++ rest) = none := by
  cases eq : literal? lit (w ++ rest) with
  | none => rfl
  | some after =>
    have whole : lit.toList <+: w ++ rest := ⟨after, List.isPrefixOf?_eq_some_iff_append_eq.mp eq⟩
    rcases List.prefix_or_prefix_of_prefix whole (List.prefix_append w rest) with h | h
    · exact absurd h hw
    · -- What the literal has behind the word would begin with white space.
      obtain ⟨more, h⟩ := h
      rw [← h] at whole hl hw
      have next : more <+: rest := (List.prefix_append_right_inj w).mp whole
      cases more with
      | nil => simp at hw
      | cons ch more =>
        obtain ⟨last, rfl⟩ := next
        have space : isSpace ch = true := hr ch rfl
        rw [hl ch (by simp)] at space
        exact absurd space (by decide)

theorem header_written (h : c.Writable) :
    header (" " ++ c.header).toList = .ok ⟨c.name, c.parent, c.isExact⟩ := by
  have ne : c.name.toList ≠ [] := by simpa using h.named
  have word := exists_cons_of_spaceless ne h.name
  have space := isSpace_head_parentText c
  have written : (" " ++ c.header).toList =
      [' '] ++ ((if c.isExact then "(exact) " else "").toList ++
        (c.name.toList ++ c.parentText.toList)) := by
    simp [ClassDoc.header]
  have inName : ∀ ch ∈ c.name.toList, (!isSpace ch && decide (ch ≠ ':')) = true := by
    intro ch hc
    have other : ch ≠ ':' := by
      rintro rfl
      exact h.nameNoColon hc
    simp [h.name ch hc, other]
  have ends : ∀ ch ∈ c.parentText.toList.head?, (!isSpace ch && decide (ch ≠ ':')) = false := by
    intro ch hc
    simp [space ch hc]
  have name := takeWhile_append_exact inName ends
  have after := dropWhile_append_exact inName ends
  have front := dropBlanks_inked (b := [' ']) (by decide) word c.parentText.toList
  rw [written]
  cases he : c.isExact with
  | true =>
    have lit : literal? "(exact)" (dropBlanks ([' '] ++ ("(exact) ".toList ++
        (c.name.toList ++ c.parentText.toList)))) =
          some ([' '] ++ (c.name.toList ++ c.parentText.toList)) := rfl
    rw [if_pos rfl, header, lit]
    simp only [front, name, after, ne, if_false, String.ofList_toList]
    exact bind_eq_ok_iff.mpr ⟨_, parentClass_written h, rfl⟩
  | false =>
    have lit := literal?_append_eq_none "(exact)" (by decide) h.nameNotExact space
    rw [if_neg Bool.false_ne_true, String.toList_empty, List.nil_append, header, front, lit]
    simp only [name, after, ne, if_false, String.ofList_toList]
    exact bind_eq_ok_iff.mpr ⟨_, parentClass_written h, rfl⟩

/-! ## Blocks -/

theorem aboutTexts_untagged (h : c.Writable) :
    ∀ line ∈ c.aboutTexts.map String.toList, tag? line = none := by
  rw [List.forall_mem_map]
  intro row hr
  rcases h.desc with empty | about
  · simp [ClassDoc.aboutTexts, empty] at hr
  · rw [ClassDoc.aboutTexts] at hr
    split at hr
    · simp at hr
    · obtain ⟨trimmed, noTag⟩ := about.row row hr
      rwa [tag?_eq_none_iff, trimmed.trimStart_eq]

theorem desc_of_aboutTexts (h : c.Writable) :
    String.ofList (trim (unlines ((c.aboutTexts.map String.toList).map fun line =>
      String.ofList (trim line))).toList) = c.desc := by
  rcases h.desc with empty | about
  · rw [ClassDoc.aboutTexts, if_pos empty, empty]
    rfl
  · have ne : c.desc ≠ "" := by
      intro empty
      rw [empty] at about
      exact about.first "" (by decide) rfl
    have same : ((rows c.desc).map String.toList).map (fun line => String.ofList (trim line)) =
        rows c.desc := by
      rw [List.map_map]
      refine (List.map_congr_left fun row hr => ?_).trans (List.map_id (rows c.desc))
      have trimmed : trim row.toList = row.toList := (about.row row hr).1
      rw [Function.comp_apply, trimmed, String.ofList_toList, id]
    have trimmed : trim c.desc.toList = c.desc.toList :=
      isTrimmed_of_rows (fun row hr => (about.row row hr).1) about.first about.last
    rw [ClassDoc.aboutTexts, if_neg ne, same, unlines_rows, trimmed, String.ofList_toList]

theorem memberTexts_written (h : c.Writable) (index : Nat) :
    members depthLimit index true (c.memberTexts.map String.toList) =
      .ok (c.isOpaque, c.fields) := by
  rw [ClassDoc.memberTexts]
  cases c.isOpaque with
  | false => exact members_written h.fields index true
  | true =>
    have mark : splitTag (Tag.opaqueMark.word.toList ++ []) = some (.opaqueMark, []) :=
      splitTag_word .opaqueMark (by simp)
    rw [List.append_nil] at mark
    rw [if_pos rfl, List.singleton_append, List.map_cons, members, mark]
    exact bind_eq_ok_iff.mpr ⟨(), rfl,
      bind_eq_ok_iff.mpr ⟨_, members_written h.fields (index + 1) false, rfl⟩⟩

/-- A class comes back from its comment lines. -/
theorem classBlock_written (c : ClassDoc) (h : c.Writable) : classBlock c.written = .ok c := by
  have bodies : c.written.map body = c.aboutTexts.map String.toList ++
      (Tag.classHeader.word ++ " " ++ c.header).toList :: c.memberTexts.map String.toList := by
    simp [ClassDoc.written, List.map_map, Function.comp_def]
  have tag := splitTag_before .classHeader c.header
  have about : (c.written.map body).takeWhile (fun line => (tag? line).isNone) =
      c.aboutTexts.map String.toList := by
    rw [bodies]
    refine takeWhile_append_exact (by simpa using aboutTexts_untagged h) ?_
    rintro line ⟨rfl⟩
    rw [tag?_before, Option.isNone_some]
  have headed : (c.written.map body).drop (c.aboutTexts.map String.toList).length =
      (Tag.classHeader.word ++ " " ++ c.header).toList :: c.memberTexts.map String.toList := by
    rw [bodies, List.drop_left]
  have below : (c.written.map body).drop ((c.aboutTexts.map String.toList).length + 1) =
      c.memberTexts.map String.toList := by
    rw [← List.drop_drop, headed, List.drop_one, List.tail_cons]
  rw [classBlock, classBlockWithin]
  simp only [about, headed, below, List.head?_cons, Option.getD_some, tag]
  refine bind_eq_ok_iff.mpr ⟨_, atLine_eq_ok_iff.mpr (header_written h),
    bind_eq_ok_iff.mpr ⟨_, memberTexts_written h _, ?_⟩⟩
  simp only [desc_of_aboutTexts h, List.isEmpty_iff, h.someField, if_false]

theorem classBlock_written_three_fields :
    let c : ClassDoc :=
      { name := "a.Set"
        parent := some "a.Base"
        isOpaque := true
        isExact := true
        desc := "A set\n\nof lists"
        fields := [⟨.keyed (.list ⟨.string, by decide⟩), .keyword .boolean, "members"⟩,
          ⟨.named "private" (some .scopeProtected), .keyword .any, ""⟩,
          ⟨.named "string" none, .keyword .table, "[text]"⟩] }
    c.written = ["---A set", "---", "---of lists", "---@class (exact) a.Set : a.Base",
      "---@opaque", "---@field [string[]] boolean members",
      "---@field protected private any", "---@field string table [text]"] ∧
    classBlock c.written = .ok c := by
  intro c
  have about : IsAbout c.desc := ⟨by decide, by decide, by decide⟩
  have listed : Field.Writable c.fields[0] :=
    ⟨admissible_list _, admissible_keyword .boolean, by decide⟩
  have limited : Field.Writable c.fields[1] :=
    ⟨(by decide : IsName "private"), admissible_keyword .any, by decide⟩
  have noScope : ∀ scope : Scope, "string" ≠ scope.text := by
    intro scope
    cases scope <;> decide
  have named : Field.Writable c.fields[2] :=
    ⟨⟨(by decide : IsName "string"), noScope⟩, admissible_keyword .table, by decide⟩
  refine ⟨by decide, classBlock_written c ⟨by decide, by decide, by decide,
    by decide, by decide, .inr about, by simp [c], ?_⟩⟩
  simpa [c] using ⟨listed, limited, named⟩

end Comment
end Annodoc
