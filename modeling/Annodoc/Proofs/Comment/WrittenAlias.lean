import Annodoc.Comment.AliasBlock
import Annodoc.Proofs.Comment.OffsetBlocks
import Annodoc.Proofs.Comment.Written

/-!
# Written aliases

The lines that an alias is read from are the lines that it is written as: a header with its name, and
one line for every value. Blank lines and white space at the end of a line do not matter. Every text
splits in one way at most into a value and its description, so no other lines are an alias.
-/

namespace Annodoc
open Text

/-- What is written behind the quotes of a value. -/
def Comment.writtenDesc (desc : String) : String := if desc = "" then "" else " # " ++ desc

/-- What is written for a value, behind the marker. -/
def Choice.written (v : Choice) : String := "| '" ++ v.value ++ "'" ++ Comment.writtenDesc v.desc

/-- A value that comes back from its line. -/
structure Choice.Writable (v : Choice) : Prop where
  value : v.value ≠ ""
  unquoted : '\'' ∉ v.value.toList
  descOneLine : '\n' ∉ v.desc.toList
  descEnd : ∀ c ∈ v.desc.toList.getLast?, isSpace c = false

/-- An alias that comes back from its lines. -/
structure AliasDoc.Writable (a : AliasDoc) : Prop where
  named : a.name ≠ ""
  name : Comment.Spaceless a.name.toList
  someValue : a.values ≠ []
  values : ∀ v ∈ a.values, v.Writable

namespace Comment
open Grammar

variable {cs w b rest text : List Char} {line header : String} {tag : Tag} {v : Choice}

/-! ## Words -/

/-- The longest runs of characters that are not white space. -/
def words (cs : List Char) : List (List Char) := (cs.splitOnP isSpace).filter (· ≠ [])

theorem words_nil : words [] = [] := rfl

theorem words_cons_space {c : Char} (h : isSpace c = true) (cs : List Char) :
    words (c :: cs) = words cs := by
  rw [words, words, List.splitOnP_cons_eq_if_modifyHead, if_pos h]
  rfl

theorem words_append_spaces (hb : ∀ c ∈ b, isSpace c = true) (cs : List Char) :
    words (b ++ cs) = words cs := by
  induction b with
  | nil => rfl
  | cons c b ih =>
    obtain ⟨first, others⟩ := List.forall_mem_cons.mp hb
    rw [List.cons_append, words_cons_space first, ih others]

theorem words_append (hne : w ≠ []) (hw : Spaceless w) (h : ∀ c ∈ rest.head?, isSpace c = true) :
    words (w ++ rest) = w :: words rest := by
  cases rest with
  | nil =>
    rw [List.append_nil, words, List.splitOnP_eq_singleton hw, words_nil]
    simp [hne]
  | cons c rest =>
    have space : isSpace c = true := h c rfl
    rw [words, List.splitOnP_append_cons_of_forall_mem hw c space, words_cons_space space]
    simp [words, hne]

theorem words_trimStart (cs : List Char) : words (trimStart cs) = words cs := by
  have split : cs.takeWhile isSpace ++ trimStart cs = cs := List.takeWhile_append_dropWhile
  have spaces : ∀ c ∈ cs.takeWhile isSpace, isSpace c = true := fun c => List.mem_takeWhile_imp
  rw [← words_append_spaces spaces, split]

theorem spaceless_wordPart (cs : List Char) : Spaceless (wordPart cs) := by
  intro c hc
  simpa using List.mem_takeWhile_imp hc

theorem isSpace_head_afterWord (cs : List Char) :
    ∀ c ∈ (afterWord cs).head?, isSpace c = true := by
  intro c hc
  have first := List.head?_dropWhile_not (fun c => !isSpace c) cs
  rw [← afterWord, hc] at first
  simpa using first

theorem words_of_wordPart (h : wordPart cs ≠ []) : words cs = wordPart cs :: words (afterWord cs) := by
  have split := words_append h (spaceless_wordPart cs) (isSpace_head_afterWord cs)
  rwa [wordPart_append_afterWord] at split

/-- The first word is what stands behind white space, up to white space. -/
theorem head?_words (cs : List Char) : (words cs).head? =
    if wordPart (trimStart cs) = [] then none else some (wordPart (trimStart cs)) := by
  rw [← words_trimStart]
  split
  · next wordless =>
    have empty : trimStart cs = [] := by
      cases eq : trimStart cs with
      | nil => rfl
      | cons c rest =>
        have first := List.head?_dropWhile_not isSpace cs
        rw [← trimStart, eq] at first
        rw [eq] at wordless
        simp only [List.head?_cons] at first
        simp [wordPart, first] at wordless
    rw [empty]
    rfl
  · next begins =>
    rw [words_of_wordPart begins]
    rfl

/-- The word of a tag comes first, and what follows it holds the other words. -/
theorem words_of_splitTag {cs : List Char} (h : splitTag cs = some (tag, text)) :
    ∃ w, words cs = w :: words text := by
  rw [splitTag] at h
  split at h
  · next rest front =>
    obtain ⟨rfl, rfl⟩ : _ = tag ∧ _ = text := by simpa using h
    have some : wordPart ('@' :: rest) ≠ [] := by simp [wordPart, show isSpace '@' = false by decide]
    exact ⟨_, by rw [← words_trimStart, front, words_of_wordPart some]⟩
  · cases h

/-! ## Values -/

theorem valueDesc?_eq_some_iff {desc : String} : valueDesc? rest = some desc ↔
    '\n' ∉ desc.toList ∧ rest = (writtenDesc desc).toList := by
  rw [writtenDesc]
  constructor
  · intro h
    unfold valueDesc? at h
    split at h
    · obtain rfl : "" = desc := Option.some.inj h
      decide
    · next d =>
      split at h
      · cases h
      · next fits =>
        obtain ⟨present, oneLine⟩ := not_or.mp fits
        obtain rfl : String.ofList d = desc := Option.some.inj h
        simp [present, oneLine]
    · cases h
  · rintro ⟨oneLine, rfl⟩
    by_cases empty : desc = ""
    · simp [empty, valueDesc?]
    · simp [empty, oneLine, valueDesc?]

theorem toList_written (v : Choice) : v.written.toList =
    "| '".toList ++ (v.value.toList ++ '\'' :: (writtenDesc v.desc).toList) := by
  simp [Choice.written]

/-- A text is read as one value at most, and it is the text that is written for it. -/
theorem aliasValue?_eq_some_iff : aliasValue? cs = some v ↔
    (v.value ≠ "" ∧ '\'' ∉ v.value.toList ∧ '\n' ∉ v.desc.toList) ∧ cs = v.written.toList := by
  rw [toList_written]
  constructor
  · intro h
    simp only [aliasValue?, Option.bind_eq_bind, Option.bind_eq_some_iff] at h
    obtain ⟨inside, opened, h⟩ := h
    obtain rfl := AtOffset.literal?_eq_some_iff.mp opened
    obtain ⟨value, taken⟩ : ∃ value, inside.takeWhile (· ≠ '\'') = value := ⟨_, rfl⟩
    rw [taken] at h
    split at h
    · cases h
    · next present =>
      split at h
      · cases h
      · next c rest closed =>
        obtain ⟨desc, behind, h⟩ := Option.bind_eq_some_iff.mp h
        obtain rfl : ⟨String.ofList value, desc⟩ = v := Option.some.inj h
        obtain ⟨oneLine, rfl⟩ := valueDesc?_eq_some_iff.mp behind
        obtain rfl := eq_of_dropWhile_ne closed
        obtain ⟨unquoted, rfl⟩ := before_first_iff.mp ⟨taken, closed⟩
        exact ⟨⟨by simpa using present, by simpa using unquoted, oneLine⟩, by simp⟩
  · -- The value holds no quote, so the reader stops at the one that was written behind it.
    rintro ⟨⟨present, unquoted, oneLine⟩, rfl⟩
    have behind : valueDesc? (writtenDesc v.desc).toList = some v.desc :=
      valueDesc?_eq_some_iff.mpr ⟨oneLine, rfl⟩
    generalize (writtenDesc v.desc).toList = tail at behind ⊢
    obtain ⟨taken, closed⟩ := before_first_iff.mpr ⟨unquoted, Eq.refl (v.value.toList ++ '\'' :: tail)⟩
    have opened := AtOffset.literal?_eq_some_iff.mpr
      (Eq.refl ("| '".toList ++ (v.value.toList ++ '\'' :: tail)))
    have some : v.value.toList ≠ [] := by simpa using present
    rw [aliasValue?, opened]
    simp only [Option.bind_eq_bind, Option.bind_some, taken, closed, if_neg some, behind,
      String.ofList_toList]

theorem getLast?_written (h : v.desc ≠ "") :
    v.written.toList.getLast? = v.desc.toList.getLast? := by
  have present : v.desc.toList ≠ [] := by simpa using h
  rw [Choice.written, writtenDesc, if_neg h, String.toList_append, String.toList_append,
    List.getLast?_append_of_ne_nil _ (by simp), String.toList_append,
    List.getLast?_append_of_ne_nil _ present]

theorem aliasValue?_trimEnd_iff :
    aliasValue? (trimEnd cs) = some v ↔ v.Writable ∧ trimEnd cs = v.written.toList := by
  rw [aliasValue?_eq_some_iff]
  constructor
  · rintro ⟨⟨present, unquoted, oneLine⟩, eq⟩
    refine ⟨⟨present, unquoted, oneLine, ?_⟩, eq⟩
    by_cases empty : v.desc = ""
    · simp [empty]
    · rw [← getLast?_written empty, ← eq]
      exact isSpace_getLast_trimEnd cs
  · rintro ⟨writable, eq⟩
    exact ⟨⟨writable.value, writable.unquoted, writable.descOneLine⟩, eq⟩

/-- The line of a value, with or without the marker, and with any white space at its end. -/
def WrittenOn (v : Choice) (line : String) : Prop :=
  trimEnd line.toList = (marked v.written).toList ∨ trimEnd line.toList = v.written.toList

/-- The marker does not matter to what is read, and no value begins like a marker. -/
theorem trimEnd_body_iff : trimEnd (body line) = v.written.toList ↔ WrittenOn v line := by
  have bar : v.written.toList.head? = some '|' := by simp [toList_written]
  obtain ⟨spaces, -, split⟩ := exists_trimEnd line.toList
  have marker : (marked v.written).toList = '-' :: '-' :: '-' :: v.written.toList := by
    simp [marked]
  rw [WrittenOn, marker, body]
  cases found : afterMarker? line.toList with
  | none =>
    have unmarked : trimEnd line.toList ≠ '-' :: '-' :: '-' :: v.written.toList := by
      intro eq
      rw [eq] at split
      simp [split, afterMarker?] at found
    simp [unmarked]
  | some rest =>
    have front : line.toList = ['-', '-', '-'] ++ rest := by
      unfold afterMarker? at found
      split at found
      · next eq =>
        obtain rfl := Option.some.inj found
        exact eq
      · cases found
    have other : '-' :: '-' :: '-' :: trimEnd rest ≠ v.written.toList := by
      intro eq
      simp [← eq] at bar
    have solid : ∀ c ∈ ['-', '-', '-'].getLast?, isSpace c = false := by
      rintro c ⟨⟩
      decide
    rw [front, trimEnd_append solid]
    simp [other]

/-! ## Blocks -/

/-- A line that is not blank, apart from its marker. -/
def holdsText (line : String) : Bool := !isEmptyText (body line)

/-- The lines that hold text are the values in order, one line for each. -/
def ValuesOn (values : List Choice) (below : List String) : Prop :=
  List.Forall₂ WrittenOn values (below.filter holdsText)

theorem readValues_iff {below : List String} {values : List Choice} :
    (((below.map body).filter fun line => !isEmptyText line).mapM fun line =>
        aliasValue? (trimEnd line)) = some values ↔
      (∀ v ∈ values, v.Writable) ∧ ValuesOn values below := by
  rw [List.filter_map, mapM_eq_some_iff, List.forall₂_map_right_iff, ValuesOn]
  simp only [aliasValue?_trimEnd_iff, trimEnd_body_iff]
  exact List.forall₂_and_left _ _

/-- A header that is the first one among the lines. -/
structure Heads (before : List String) (header : String) : Prop where
  untagged : ∀ line ∈ before, tag? (body line) ≠ some .aliasHeader
  tagged : tag? (body header) = some .aliasHeader

variable {before below lines : List String} {a : AliasDoc}

theorem dropWhile_before (h : Heads before header) (below : List String) :
    ((before ++ header :: below).map body).dropWhile (fun line => tag? line ≠ some .aliasHeader) =
      body header :: below.map body := by
  have front : ∀ line ∈ before.map body, decide (tag? line ≠ some .aliasHeader) = true := by
    simpa using h.untagged
  rw [List.map_append, List.dropWhile_append_of_pos front, List.map_cons,
    List.dropWhile_cons_of_neg (by simpa using h.tagged)]

/-- What is read behind the first header. -/
theorem aliasBlock?_of_heads (h : Heads before header) :
    aliasBlock? (before ++ header :: below) = some a ↔
      a.Writable ∧ (words (body header))[1]? = some a.name.toList ∧ ValuesOn a.values below := by
  obtain ⟨⟨tag, text⟩, split, -⟩ := Option.map_eq_some_iff.mp h.tagged
  obtain ⟨word, found⟩ := words_of_splitTag split
  rw [aliasBlock?, dropWhile_before h]
  simp only [List.head?_cons, Option.map_some, Option.bind_eq_bind, Option.bind_some,
    List.drop_succ_cons, List.drop_zero, split, Option.bind_eq_some_iff, readValues_iff, found,
    List.getElem?_cons_succ, ← List.head?_eq_getElem?, head?_words]
  constructor
  · rintro ⟨values, ⟨writable, on⟩, h⟩
    split at h
    · cases h
    · next present =>
      obtain ⟨named, someValue⟩ := not_or.mp present
      obtain rfl := Option.some.inj h
      have spaceless := spaceless_wordPart (trimStart text)
      exact ⟨⟨by simpa using named, by simpa using spaceless, someValue, writable⟩,
        by simp [named], on⟩
  · rintro ⟨writable, second, on⟩
    split at second
    · cases second
    · next named =>
      refine ⟨a.values, ⟨writable.values, on⟩, ?_⟩
      rw [if_neg (not_or.mpr ⟨named, writable.someValue⟩), Option.some.inj second,
        String.ofList_toList]

/-- Lines that are an alias have a header. -/
theorem exists_heads (h : aliasBlock? lines = some a) :
    ∃ before header below, lines = before ++ header :: below ∧ Heads before header := by
  let other (line : String) : Bool := tag? (body line) ≠ some .aliasHeader
  have split : lines.takeWhile other ++ lines.dropWhile other = lines :=
    List.takeWhile_append_dropWhile
  have untagged : ∀ line ∈ lines.takeWhile other, tag? (body line) ≠ some .aliasHeader := by
    intro line mem
    have held : other line = true := List.mem_takeWhile_imp mem
    exact of_decide_eq_true held
  cases behind : lines.dropWhile other with
  | nil =>
    rw [behind, List.append_nil] at split
    rw [split] at untagged
    have none : (lines.map body).dropWhile (fun line => tag? line ≠ some .aliasHeader) = [] := by
      simpa [List.dropWhile_eq_nil_iff] using untagged
    rw [aliasBlock?, none] at h
    cases h
  | cons header below =>
    refine ⟨lines.takeWhile other, header, below, by rw [← behind, split], untagged, ?_⟩
    have first := List.head?_dropWhile_not other lines
    rw [behind] at first
    simpa [other] using first

/-- The lines that an alias is read from, whatever they are. -/
theorem aliasBlock?_eq_some_iff :
    aliasBlock? lines = some a ↔ a.Writable ∧ ∃ before header below,
      lines = before ++ header :: below ∧ Heads before header ∧
        (words (body header))[1]? = some a.name.toList ∧ ValuesOn a.values below := by
  constructor
  · intro h
    obtain ⟨before, header, below, rfl, heads⟩ := exists_heads h
    obtain ⟨writable, named, on⟩ := (aliasBlock?_of_heads heads).mp h
    exact ⟨writable, before, header, below, rfl, heads, named, on⟩
  · rintro ⟨writable, before, header, below, rfl, heads, named, on⟩
    exact (aliasBlock?_of_heads heads).mpr ⟨writable, named, on⟩

/-- The header with the marker and any white space at its end. -/
theorem aliasHeader_written (hn : a.name ≠ "") (hs : Spaceless a.name.toList)
    (h : trimEnd header.toList = (marked ("@alias " ++ a.name)).toList) :
    tag? (body header) = some .aliasHeader ∧ (words (body header))[1]? = some a.name.toList := by
  obtain ⟨spaces, blank, split⟩ := exists_trimEnd header.toList
  have named : a.name.toList ≠ [] := by simpa using hn
  have front : body header = Tag.aliasHeader.word.toList ++ ' ' :: (a.name.toList ++ spaces) := by
    rw [body, split, h]
    simp [marked, afterMarker?, Tag.word]
  have tag : splitTag (Tag.aliasHeader.word.toList ++ ' ' :: (a.name.toList ++ spaces)) =
      some (.aliasHeader, ' ' :: (a.name.toList ++ spaces)) :=
    splitTag_word .aliasHeader (by simpa using by decide)
  obtain ⟨word, found⟩ := words_of_splitTag tag
  have ends : ∀ c ∈ spaces.head?, isSpace c = true := fun c hc => blank c (List.mem_of_mem_head? hc)
  rw [front, found, words_cons_space (by decide), words_append named hs ends]
  exact ⟨by rw [tag?, tag]; rfl, rfl⟩

/-- No line but the ones that are written for values may hold text. -/
theorem aliasBlock?_eq_none (h : Heads before header) (mem : line ∈ below)
    (held : isEmptyText (body line) = false)
    (other : ∀ v : Choice, v.Writable → ¬ WrittenOn v line) :
    aliasBlock? (before ++ header :: below) = none := by
  rw [Option.eq_none_iff_forall_ne_some]
  intro a read
  obtain ⟨writable, -, on⟩ := (aliasBlock?_of_heads h).mp read
  have kept : line ∈ below.filter holdsText := List.mem_filter.mpr ⟨mem, by simp [holdsText, held]⟩
  obtain ⟨v, hv, written⟩ := exists_left_of_forall₂ on line kept
  exact other v (writable.values v hv) written

/-- What is written for an alias is read as that alias: behind lines without tags, with any white
space at the ends of lines, and with any blank lines between them. What is read as an alias is one
that can be written. Behind its header, the first one, with its name as the second word, there are
only its values and blank lines. A value line may lack the marker, and any other line that holds text
makes that there is no alias. The block is read at offsets in the same way. -/
theorem alias_read_as_written :
    (∀ (a : AliasDoc) before header below, a.Writable →
      (∀ line ∈ before, tag? (body line) = none) →
      trimEnd header.toList = (marked ("@alias " ++ a.name)).toList →
      List.Forall₂ (fun v line => trimEnd line.toList = (marked (Choice.written v)).toList) a.values
        (below.filter holdsText) →
      aliasBlock? (before ++ header :: below) = some a) ∧
    (∀ lines a, aliasBlock? lines = some a → a.Writable ∧ ∃ before header below,
      lines = before ++ header :: below ∧ Heads before header ∧
        (words (body header))[1]? = some a.name.toList ∧
        List.Forall₂ WrittenOn a.values (below.filter holdsText)) ∧
    (∀ before header below line, Heads before header → line ∈ below →
      isEmptyText (body line) = false → (∀ v : Choice, v.Writable → ¬ WrittenOn v line) →
      aliasBlock? (before ++ header :: below) = none) ∧
    ∀ lines, AtOffset.aliasBlock? lines = some (aliasBlock? lines) := by
  refine ⟨fun a before header below writable untagged first values => ?_,
    fun lines a h => aliasBlock?_eq_some_iff.mp h,
    fun before header below line heads mem held other => aliasBlock?_eq_none heads mem held other,
    AtOffset.aliasBlock?_eq⟩
  obtain ⟨tagged, named⟩ := aliasHeader_written writable.named writable.name first
  have heads : Heads before header := ⟨fun line mem => by simp [untagged line mem], tagged⟩
  exact (aliasBlock?_of_heads heads).mpr ⟨writable, named, values.imp fun _ _ => .inl⟩

/-- A quoted value may hold the sign of a description, and a description may begin with a blank. -/
theorem alias_read_as_written_kind :
    let a : AliasDoc := ⟨"my.Kind", [⟨"a # b", " it's"⟩, ⟨"c", ""⟩]⟩
    let below := ["---| 'a # b' #  it's\t", "---  ", "---| 'c'"]
    a.Writable ∧ aliasBlock? (["--- about é"] ++ "---@alias my.Kind " :: below) = some a ∧
      Heads ["--- about é"] "---@alias my.Kind " ∧ ∃ before header below',
        ["--- about é"] ++ "---@alias my.Kind " :: below = before ++ header :: below' ∧
        List.Forall₂ WrittenOn a.values (below'.filter holdsText) := by
  intro a below
  have writable : a.Writable := by
    refine ⟨by decide, by decide, by decide, List.forall_mem_cons.mpr ⟨?_, ?_⟩⟩
    · exact ⟨by decide, by decide, by decide, by rintro c ⟨⟩; decide⟩
    · exact List.forall_mem_singleton.mpr ⟨by decide, by decide, by decide, by rintro c ⟨⟩⟩
  have kept : below.filter holdsText = ["---| 'a # b' #  it's\t", "---| 'c'"] := by decide
  have values : List.Forall₂ (fun v line => trimEnd line.toList = (marked (Choice.written v)).toList)
      a.values (below.filter holdsText) := by
    rw [kept]
    exact .cons (by decide) (.cons (by decide) .nil)
  obtain ⟨reads, only, -⟩ := alias_read_as_written
  have read := reads a ["--- about é"] "---@alias my.Kind " below writable (by decide)
    (by decide) values
  obtain ⟨-, before, header, below', split, -, -, written⟩ := only _ a read
  exact ⟨writable, read, ⟨by decide, by decide⟩, before, header, below', split,
    written⟩

/-- A line without the marker is read as a value, although it is not the line that is written for
one. -/
theorem aliasBlock?_unmarked :
    aliasBlock? ["---@alias a", "| 'x'"] = some ⟨"a", [⟨"x", ""⟩]⟩ ∧ holdsText "| 'x'" = true ∧
    ∀ v : Choice, trimEnd "| 'x'".toList ≠ (marked v.written).toList := by
  refine ⟨by decide, by decide, fun v eq => ?_⟩
  have front : "| 'x'".toList.head? = some '-' := by
    rw [show "| 'x'".toList = trimEnd "| 'x'".toList by decide, eq]
    simp [marked]
  exact absurd front (by decide)

end Comment
end Annodoc
