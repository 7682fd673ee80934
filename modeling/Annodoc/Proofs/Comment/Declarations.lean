import Annodoc.Comment.Purpose
import Annodoc.Proofs.Comment.TagLines
import Annodoc.Proofs.Grammar.Offsets

/-!
# Declarations and purposes

A line declares a function if it has one of two forms: an assignment to a name in the table `M`, or
a statement with a qualified name. Neither white space nor the mark behind a name can belong to it,
so the longest beginning is the only one that fits. The name and the tag words of a block, in any
order, decide what the block documents.
-/

namespace Annodoc

theorem Text.isWordChar_eq_false_of_isSpace {c : Char} (h : isSpace c = true) :
    isWordChar c = false := by
  have spaces : ∀ r ∈ spaceRanges, ∀ n ∈ List.range' r.1 (r.2 - r.1 + 1),
      isWordChar (Char.ofNat n) = false := by
    decide +kernel
  obtain ⟨r, hr, low, high⟩ := (inRanges_iff spaceRanges c).mp h
  have none := spaces r hr c.toNat (List.mem_range'_1.mpr ⟨low, by omega⟩)
  rwa [Char.ofNat_toNat] at none

namespace Comment
open Text Grammar

/-! ## Lines that declare a function -/

/-- A name of characters of a kind, then white space or none, then the mark, then anything. -/
structure StandsBefore (mark : Char) (kind : Char → Bool) (name : String) (cs : List Char) :
    Prop where
  named : name ≠ ""
  all : ∀ c ∈ name.toList, kind c = true
  marked : ∃ spaces rest, (∀ c ∈ spaces, isSpace c = true) ∧
    cs = name.toList ++ (spaces ++ mark :: rest)

/-- The forms of a line that declares the function `name`. -/
inductive Declares (name : String) : List Char → Prop where
  | assignment {cs : List Char} : StandsBefore '=' isWordChar name cs →
      Declares name ("M.".toList ++ cs)
  | statement {cs : List Char} : StandsBefore '(' isNameChar name cs →
      (∃ capital ∈ name.toList.head?, capital.isUpper = true) →
      Declares name ("function ".toList ++ cs)

section
variable {mark : Char} {kind : Char → Bool} {name : String} {cs : List Char}

/-- Where white space and the mark are of another kind, the name that is found is the only one. -/
theorem nameBefore_eq_some_iff (ends : kind mark = false) (solid : isSpace mark = false)
    (spaceless : ∀ c, isSpace c = true → kind c = false) :
    nameBefore mark kind cs = some name ↔ StandsBefore mark kind name cs := by
  rw [nameBefore]
  constructor
  · intro h
    split at h
    · next found =>
      obtain rfl := Option.some.inj h
      obtain ⟨rest, behind⟩ := List.head?_eq_some_iff.mp found.2
      refine ⟨by simpa using found.1, ?_, (cs.dropWhile kind).takeWhile isSpace, rest, ?_, ?_⟩
      · rw [String.toList_ofList]
        exact fun c hc => List.mem_takeWhile_imp hc
      · exact fun c hc => List.mem_takeWhile_imp hc
      · rw [← behind, trimStart, List.takeWhile_append_dropWhile, String.toList_ofList,
          List.takeWhile_append_dropWhile]
    · cases h
  · rintro ⟨named, all, spaces, rest, blank, rfl⟩
    have stop : ∀ c ∈ (spaces ++ mark :: rest).head?, kind c = false := by
      cases spaces with
      | nil =>
        rintro c ⟨⟩
        exact ends
      | cons d spaces =>
        rintro c ⟨⟩
        exact spaceless d (blank d List.mem_cons_self)
    have front : trimStart (mark :: rest) = mark :: rest :=
      trimStart_eq_self_iff.mpr (by rintro c ⟨⟩; exact solid)
    have present : name.toList ≠ [] := by simpa using named
    simp only [takeWhile_append_exact all stop, dropWhile_append_exact all stop,
      trimStart_append blank, front]
    rw [if_pos ⟨present, rfl⟩, String.ofList_toList]

theorem isNameChar_eq_false_of_isSpace {c : Char} (h : isSpace c = true) :
    isNameChar c = false := by
  rw [isNameChar, Bool.or_eq_false_iff, Bool.or_eq_false_iff]
  refine ⟨⟨?_, ?_⟩, ?_⟩
  · by_contra ident
    rw [isSpace_eq_false_of_isIdent (by simpa using ident)] at h
    cases h
  · rw [decide_eq_false_iff_not]
    rintro rfl
    exact absurd h (by decide)
  · rw [decide_eq_false_iff_not]
    rintro rfl
    exact absurd h (by decide)

theorem assignedName?_eq_some_iff : assignedName? cs = some name ↔
    ∃ rest, cs = "M.".toList ++ rest ∧ StandsBefore '=' isWordChar name rest := by
  have only {rest : List Char} : nameBefore '=' isWordChar rest = some name ↔
      StandsBefore '=' isWordChar name rest :=
    nameBefore_eq_some_iff (by decide) (by decide) fun _ => isWordChar_eq_false_of_isSpace
  simp only [assignedName?, Option.bind_eq_some_iff, AtOffset.literal?_eq_some_iff, only]

theorem statementName?_eq_some_iff : statementName? cs = some name ↔
    ∃ rest, cs = "function ".toList ++ rest ∧ StandsBefore '(' isNameChar name rest ∧
      ∃ capital ∈ name.toList.head?, capital.isUpper = true := by
  have only {rest : List Char} : nameBefore '(' isNameChar rest = some name ↔
      StandsBefore '(' isNameChar name rest :=
    nameBefore_eq_some_iff (by decide) (by decide) fun _ => isNameChar_eq_false_of_isSpace
  simp only [statementName?, Option.bind_eq_some_iff, AtOffset.literal?_eq_some_iff,
    Option.ite_none_right_eq_some, only]
  refine exists_congr fun rest => and_congr_right fun _ => ?_
  rw [and_comm, and_congr_right_iff]
  rintro ⟨named, -, spaces, behind, -, rfl⟩
  rw [List.head?_append_of_ne_nil _ (by simpa using named), Option.any_eq_true]
  exact ⟨fun ⟨c, hc, upper⟩ => ⟨c, hc, upper⟩, fun ⟨c, hc, upper⟩ => ⟨c, hc, upper⟩⟩

theorem declaredName?_eq_some_iff {line : String} :
    declaredName? line = some name ↔ Declares name line.toList := by
  rw [declaredName?, Option.or_eq_some_iff]
  constructor
  · rintro (assigned | ⟨-, stated⟩)
    · obtain ⟨rest, eq, stands⟩ := assignedName?_eq_some_iff.mp assigned
      rw [eq]
      exact .assignment stands
    · obtain ⟨rest, eq, stands, capital⟩ := statementName?_eq_some_iff.mp stated
      rw [eq]
      exact .statement stands capital
  · generalize eq : line.toList = cs
    rintro (@⟨rest, stands⟩ | @⟨rest, stands, capital⟩)
    · exact .inl (assignedName?_eq_some_iff.mpr ⟨rest, rfl, stands⟩)
    · -- No statement is an assignment: they begin with different letters.
      refine .inr ⟨?_, statementName?_eq_some_iff.mpr ⟨rest, rfl, stands, capital⟩⟩
      rfl

end

/-! ## Tag words -/

/-- The line begins with the word, behind its marker and white space, and the word begins with the
sign of a tag. -/
def HasTagWord (line word : String) : Prop :=
  ∃ spaces rest, body line = spaces ++ (word.toList ++ rest) ∧ (∀ c ∈ spaces, isSpace c = true) ∧
    word.toList.head? = some '@' ∧ Spaceless word.toList ∧ ∀ c ∈ rest.head?, isSpace c = true

section
variable {line word : String} {lines : List String} {next : Option String} {tag : Tag}

theorem splitTag_of_hasTagWord (h : HasTagWord line word) :
    ∃ rest, splitTag (body line) = some (.ofWord word, rest) := by
  obtain ⟨spaces, rest, eq, blank, sign, solid, ends⟩ := h
  obtain ⟨more, front⟩ := List.head?_eq_some_iff.mp sign
  have start : trimStart (word.toList ++ rest) = '@' :: (more ++ rest) := by
    rw [front, List.cons_append, trimStart_eq_self_iff]
    rintro c ⟨⟩
    decide
  have part := wordPart_append solid ends
  rw [front, List.cons_append] at part
  refine ⟨rest, ?_⟩
  rw [splitTag, eq, trimStart_append blank, start]
  simp only [part, ← front, String.ofList_toList]
  rw [← List.cons_append, ← front, afterWord_append solid ends]

theorem tag?_eq_some_iff : tag? (body line) = some tag ↔
    ∃ word, HasTagWord line word ∧ Tag.ofWord word = tag := by
  rw [tag?, Option.map_eq_some_iff]
  constructor
  · rintro ⟨⟨t, rest⟩, split, rfl⟩
    rw [splitTag] at split
    split at split
    · next more front =>
      obtain ⟨rfl, rfl⟩ := Prod.mk.inj (Option.some.inj split)
      refine ⟨String.ofList (wordPart ('@' :: more)), ⟨(body line).takeWhile isSpace,
        afterWord ('@' :: more), ?_, fun c hc => List.mem_takeWhile_imp hc, ?_, ?_, ?_⟩, rfl⟩
      · rw [String.toList_ofList, wordPart_append_afterWord, ← front, trimStart,
          List.takeWhile_append_dropWhile]
      · rw [String.toList_ofList]
        rfl
      · rw [String.toList_ofList]
        intro c hc
        simpa using List.mem_takeWhile_imp hc
      · intro c hc
        have first := List.head?_dropWhile_not (fun c => !isSpace c) ('@' :: more)
        rw [← afterWord, hc] at first
        simpa using first
    · cases split
  · rintro ⟨word, has, rfl⟩
    obtain ⟨rest, split⟩ := splitTag_of_hasTagWord has
    exact ⟨_, split, rfl⟩

/-- Only its own word stands for a known tag. -/
theorem Tag.eq_word_of_ofWord (known : tag ≠ .unknown) (h : Tag.ofWord word = tag) :
    word = tag.word := by
  unfold Tag.ofWord at h
  split at h
  case h_11 => exact absurd h.symm known
  all_goals
    rw [← h]
    rfl

theorem mem_blockTags_iff (known : tag ≠ .unknown) :
    tag ∈ blockTags lines ↔ ∃ line ∈ lines, HasTagWord line tag.word := by
  rw [blockTags, List.mem_filterMap]
  refine exists_congr fun line => and_congr_right fun _ => ?_
  rw [tag?_eq_some_iff]
  constructor
  · rintro ⟨word, has, eq⟩
    exact Tag.eq_word_of_ofWord known eq ▸ has
  · intro has
    exact ⟨tag.word, has, Tag.ofWord_word tag⟩

theorem blockTags_eq_nil_iff :
    blockTags lines = [] ↔ ∀ line ∈ lines, ∀ word, ¬ HasTagWord line word := by
  rw [blockTags, List.filterMap_eq_nil_iff]
  refine forall₂_congr fun line _ => ?_
  rw [Option.eq_none_iff_forall_ne_some]
  constructor
  · intro none word has
    exact none _ (tag?_eq_some_iff.mpr ⟨word, has, rfl⟩)
  · intro none t tagged
    obtain ⟨word, has, -⟩ := tag?_eq_some_iff.mp tagged
    exact none word has

/-! ## The purpose of a block -/

/-- Some line of the block begins with the tag word. -/
def HasTag (lines : List String) (word : String) : Prop := ∃ line ∈ lines, HasTagWord line word

/-- The block documents a function wherever its tags allow it: there are none, or one is for a
parameter or a result. -/
def AllowsFunction (lines : List String) : Prop :=
  (∀ word, ¬ HasTag lines word) ∨ HasTag lines "@param" ∨ HasTag lines "@return"

theorem allowsFunction_iff : AllowsFunction lines ↔
    blockTags lines = [] ∨ .param ∈ blockTags lines ∨ .returns ∈ blockTags lines := by
  rw [blockTags_eq_nil_iff, mem_blockTags_iff (by simp), mem_blockTags_iff (by simp)]
  refine or_congr_left ?_
  simp only [HasTag, not_exists, not_and]
  exact ⟨fun h line mem word => h word line mem, fun h word line mem => h line mem word⟩

/-- The line below the block declares the function, and the block documents it. -/
def Documents (lines : List String) (next : Option String) (name : String) : Prop :=
  (∃ line, next = some line ∧ Declares name line.toList) ∧ AllowsFunction lines

/-- What a block above the line `next` documents: a function before a class, a class before an
alias. -/
inductive HasPurpose (lines : List String) (next : Option String) : Purpose → Prop where
  | functionNamed {name : String} : Documents lines next name →
      HasPurpose lines next (.functionNamed name)
  | someClass : (∀ name, ¬ Documents lines next name) → HasTag lines "@class" →
      HasPurpose lines next .someClass
  | someAlias : (∀ name, ¬ Documents lines next name) → ¬ HasTag lines "@class" →
      HasTag lines "@alias" → HasPurpose lines next .someAlias
  | nothing : (∀ name, ¬ Documents lines next name) → ¬ HasTag lines "@class" →
      ¬ HasTag lines "@alias" → HasPurpose lines next .nothing

theorem documents_iff {name : String} : Documents lines next name ↔
    next.bind declaredName? = some name ∧ AllowsFunction lines := by
  simp only [Documents, Option.bind_eq_some_iff, declaredName?_eq_some_iff]

/-- Without a function, the tags for classes and aliases decide. -/
theorem hasPurpose_of_tags (none : ∀ name, ¬ Documents lines next name) :
    HasPurpose lines next (if .classHeader ∈ blockTags lines then .someClass
      else if .aliasHeader ∈ blockTags lines then .someAlias else .nothing) := by
  have cls : .classHeader ∈ blockTags lines ↔ HasTag lines "@class" := mem_blockTags_iff (by simp)
  have als : .aliasHeader ∈ blockTags lines ↔ HasTag lines "@alias" := mem_blockTags_iff (by simp)
  split
  · next has => exact .someClass none (cls.mp has)
  · next noClass =>
    rw [cls] at noClass
    split
    · next has => exact .someAlias none noClass (als.mp has)
    · next noAlias => exact .nothing none noClass (mt als.mpr noAlias)

theorem hasPurpose_ofBlock (lines : List String) (next : Option String) :
    HasPurpose lines next (Purpose.ofBlock lines next) := by
  rw [Purpose.ofBlock]
  split
  · next name declared =>
    split
    · next allowed =>
      exact .functionNamed (documents_iff.mpr ⟨declared, allowsFunction_iff.mpr allowed⟩)
    · next refused => exact hasPurpose_of_tags fun _ h => refused (allowsFunction_iff.mp h.2)
  · next undeclared =>
    refine hasPurpose_of_tags fun name h => ?_
    rw [documents_iff, undeclared] at h
    cases h.1

theorem Documents.unique {name other : String} (h : Documents lines next name)
    (k : Documents lines next other) : name = other :=
  Option.some.inj ((documents_iff.mp h).1.symm.trans (documents_iff.mp k).1)

/-- A block documents one thing. -/
theorem HasPurpose.unique {p q : Purpose} (h : HasPurpose lines next p)
    (k : HasPurpose lines next q) : p = q := by
  cases h with
  | functionNamed documents =>
    cases k with
    | functionNamed other => rw [documents.unique other]
    | someClass none | someAlias none | nothing none => exact absurd documents (none _)
  | someClass none has =>
    cases k with
    | functionNamed documents => exact absurd documents (none _)
    | someClass => rfl
    | someAlias _ hasNot | nothing _ hasNot => exact absurd has hasNot
  | someAlias none noClass has =>
    cases k with
    | functionNamed documents => exact absurd documents (none _)
    | someClass _ cls => exact absurd cls noClass
    | someAlias => rfl
    | nothing _ _ hasNot => exact absurd has hasNot
  | nothing none noClass noAlias =>
    cases k with
    | functionNamed documents => exact absurd documents (none _)
    | someClass _ cls => exact absurd cls noClass
    | someAlias _ _ als => exact absurd als noAlias
    | nothing => rfl

end

/-- A name is read off a line exactly if the line declares it, and no line declares two. What a block
documents is told by the declaration below it and by the tag words that stand anywhere in it. -/
theorem declarations_decide :
    (∀ line name, declaredName? line = some name ↔ Declares name line.toList) ∧
    (∀ cs name other, Declares name cs → Declares other cs → name = other) ∧
    ∀ lines next p, Purpose.ofBlock lines next = p ↔ HasPurpose lines next p := by
  refine ⟨fun line name => declaredName?_eq_some_iff, fun cs name other h k => ?_,
    fun lines next p => ⟨?_, fun h => (hasPurpose_ofBlock lines next).unique h⟩⟩
  · rw [← String.toList_ofList (l := cs), ← declaredName?_eq_some_iff] at h k
    exact Option.some.inj (h.symm.trans k)
  · rintro rfl
    exact hasPurpose_ofBlock lines next

/-- A class block with a result documents the function below it. -/
theorem declarations_decide_class_with_result :
    let line := "function Foo:bar\u00A0(x)"
    let lines := ["---@class a.B", "---  @return nil"]
    Declares "Foo:bar" line.toList ∧ (∀ other, Declares other line.toList → other = "Foo:bar") ∧
      HasPurpose lines (some line) (.functionNamed "Foo:bar") := by
  intro line lines
  obtain ⟨declares, unique, purpose⟩ := declarations_decide
  have declared : Declares "Foo:bar" line.toList := (declares line "Foo:bar").mp (by decide)
  exact ⟨declared, fun other h => unique _ _ _ h declared,
    (purpose lines (some line) _).mp (by decide)⟩

end Comment
end Annodoc
