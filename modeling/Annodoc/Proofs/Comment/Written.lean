import Annodoc.Comment.FunctionBlock
import Annodoc.Proofs.LuaType.Parsing
import Annodoc.Proofs.Text.Trim

/-!
# Written lines

How comment lines hold tags, types and descriptions, one space between them. The readers of blocks
take them apart again, as long as no description begins with a mark that continues a type.
-/

namespace Annodoc.Comment
open Text Grammar LuaType

/-- A comment line with a text right after the marker. -/
def marked (text : String) : String := "---" ++ text

@[simp] theorem body_marked (text : String) : body (marked text) = text.toList := by
  simp [body, marked, afterMarker?]

/-- The word for a tag; an unknown one has the sign alone. -/
def Tag.word : Tag → String
  | .param => "@param"
  | .returns => "@return"
  | .privateMark => "@private"
  | .deprecatedMark => "@deprecated"
  | .sample => "@example"
  | .note => "@note"
  | .classHeader => "@class"
  | .opaqueMark => "@opaque"
  | .field => "@field"
  | .aliasHeader => "@alias"
  | .unknown => "@"

theorem Tag.ofWord_word (t : Tag) : Tag.ofWord t.word = t := by cases t <;> rfl

/-- No white space at all. -/
def Spaceless (cs : List Char) : Prop := ∀ c ∈ cs, isSpace c = false

instance (cs : List Char) : Decidable (Spaceless cs) :=
  decidable_of_iff (cs.all (fun c => !isSpace c) = true) (by simp [Spaceless])

theorem Tag.spaceless_word (t : Tag) : Spaceless t.word.toList := by cases t <;> decide

theorem Tag.head?_word (t : Tag) : t.word.toList.head? = some '@' := by cases t <;> rfl

variable {limit : Nat} {t : LuaType} {tag : Tag} {name desc : String} {c : Char}
  {cs w b rest : List Char}

theorem isBlank_eq_false_of_isSpace (h : isSpace c = false) : isBlank c = false := by
  by_contra blank
  rw [isSpace_of_isBlank (by simpa using blank)] at h
  exact absurd h (by decide)

theorem exists_cons_of_spaceless (hne : w ≠ []) (hw : Spaceless w) :
    ∃ c cs, w = c :: cs ∧ isBlank c = false := by
  obtain ⟨c, cs, rfl⟩ := List.exists_cons_of_ne_nil hne
  exact ⟨c, cs, rfl, isBlank_eq_false_of_isSpace (hw c (by simp))⟩

theorem wordPart_append (hw : Spaceless w) (h : ∀ c ∈ rest.head?, isSpace c = true) :
    wordPart (w ++ rest) = w :=
  takeWhile_append_exact (by simpa [Spaceless] using hw) (by simpa using h)

theorem afterWord_append (hw : Spaceless w) (h : ∀ c ∈ rest.head?, isSpace c = true) :
    afterWord (w ++ rest) = rest :=
  dropWhile_append_exact (by simpa [Spaceless] using hw) (by simpa using h)

theorem splitTag_word (tag : Tag) (h : ∀ c ∈ rest.head?, isSpace c = true) :
    splitTag (tag.word.toList ++ rest) = some (tag, rest) := by
  obtain ⟨w, hw⟩ := List.head?_eq_some_iff.mp tag.head?_word
  have front : trimStart (tag.word.toList ++ rest) = tag.word.toList ++ rest := by
    rw [trimStart_eq_self_iff, hw]
    rintro c ⟨rfl⟩
    exact tag.spaceless_word '@' (by simp [hw])
  have word := wordPart_append tag.spaceless_word h
  have after := afterWord_append tag.spaceless_word h
  rw [splitTag, front]
  rw [hw, List.cons_append] at word after ⊢
  simp only [word, after]
  rw [← hw, String.ofList_toList, Tag.ofWord_word]

theorem splitTag_before (tag : Tag) (text : String) :
    splitTag (tag.word ++ " " ++ text).toList = some (tag, (" " ++ text).toList) := by
  rw [String.append_assoc, String.toList_append]
  exact splitTag_word tag (by simpa using by decide)

theorem tag?_before (tag : Tag) (text : String) :
    tag? (tag.word ++ " " ++ text).toList = some tag := by
  rw [tag?, splitTag_before, Option.map_some]

/-- A line without a tag begins with another character after white space. -/
theorem tag?_eq_none_iff : tag? cs = none ↔ (trimStart cs).head? ≠ some '@' := by
  rw [tag?, Option.map_eq_none_iff, splitTag]
  split
  · rename_i h
    simp [h]
  · rename_i h
    simp only [true_iff]
    intro hd
    obtain ⟨rest, eq⟩ := List.head?_eq_some_iff.mp hd
    exact h rest eq

theorem isEmptyText_eq_false_of_tag (h : tag? cs = some tag) : isEmptyText cs = false := by
  by_contra empty
  have front : trimStart cs = [] := by
    simpa [trimStart, List.dropWhile_eq_nil_iff, isEmptyText] using empty
  rw [tag?_eq_none_iff.mpr (by simp [front])] at h
  exact absurd h (by simp)

theorem isSpace_eq_false_of_isIdent (h : isIdent c = true) : isSpace c = false := by
  have ascii : 48 ≤ c.toNat ∧ c.toNat < 123 := by
    simp only [isIdent, Char.isAlphanum, Bool.or_eq_true, decide_eq_true_eq] at h
    rcases h with (letter | digit) | rfl
    · rcases (Bool.or_eq_true c.isUpper c.isLower).mp letter with upper | lower
      · have range : 65 ≤ c.toNat ∧ c.toNat ≤ 90 := of_decide_eq_true upper
        omega
      · obtain ⟨low, high⟩ := (Bool.and_eq_true _ _).mp lower
        have low : 97 ≤ c.toNat := of_decide_eq_true low
        have high : c.toNat ≤ 122 := of_decide_eq_true high
        omega
    · have range : 48 ≤ c.toNat ∧ c.toNat ≤ 57 := Char.isDigit_iff_toNat.mp digit
      omega
    · decide
  rw [← Bool.not_eq_true, isSpace, inRanges_iff]
  rintro ⟨r, hr, lo, hi⟩
  simp only [spaceRanges, List.mem_cons, List.not_mem_nil, or_false] at hr
  rcases hr with rfl | rfl | rfl | rfl | rfl | rfl | rfl | rfl | rfl | rfl <;> omega

/-- A text as the readers of descriptions leave it, which continues no type. -/
structure IsDescription (desc : String) : Prop where
  trimmed : IsTrimmed desc.toList
  head : ∀ c ∈ desc.toList.head?, c ∉ ['|', ':', '<']

instance (desc : String) : Decidable (IsDescription desc) :=
  decidable_of_iff (IsTrimmed desc.toList ∧ desc.toList.head?.all (· ∉ ['|', ':', '<']) = true)
    ⟨fun h => ⟨h.1, by simpa [Option.all_eq_true] using h.2⟩,
      fun h => ⟨h.trimmed, by simpa [Option.all_eq_true] using h.head⟩⟩

def trailing (desc : String) : String := if desc = "" then "" else " " ++ desc

theorem description_trailing (h : IsDescription desc) :
    description (trailing desc).toList = desc := by
  have trimmed : trim desc.toList = desc.toList := h.trimmed
  have space : ∀ c ∈ " ".toList, isSpace c = true := by simpa using by decide
  by_cases empty : desc = ""
  · rw [trailing, if_pos empty, empty]
    rfl
  · rw [trailing, if_neg empty, description, String.toList_append, trim_append space, trimmed,
      String.ofList_toList]

theorem mark?_trailing (h : IsDescription desc) (hc : c ∈ ['|', ':', '<']) :
    mark? c (trailing desc).toList = none := by
  rw [trailing]
  split
  · rfl
  · cases eq : desc.toList with
    | nil => exact mark?_of_blanks (by simp [eq, Blanks, isBlank]) c
    | cons d ds =>
      have space : isSpace d = false := (isTrimmed_iff.mp h.trimmed).1 d (by simp [eq])
      have blank := isBlank_eq_false_of_isSpace space
      have other : d ≠ c := by
        rintro rfl
        exact h.head d (by simp [eq]) hc
      rw [String.toList_append, mark?_append (by decide), mark?, eq, dropBlanks_cons blank]
      exact if_neg other

theorem plain_trailing (h : IsDescription desc) : Plain (trailing desc).toList := by
  refine ⟨?_, mark?_trailing h (by decide), mark?_trailing h (by decide)⟩
  intro c hc
  have blank : isBlank c = true := by
    rw [trailing] at hc
    split at hc
    · simp at hc
    · obtain rfl : ' ' = c := by simpa using hc
      rfl
  exact head_of_isBlank blank

/-- What is written behind a name that has a type. -/
def typed (t : LuaType) (desc : String) : String := " " ++ t.text ++ trailing desc

theorem identEnds_typed (t : LuaType) (desc : String) : IdentEnds (typed t desc).toList := by
  simpa [typed, IdentEnds] using by decide

theorem isSpace_head_typed : ∀ c ∈ (typed t desc).toList.head?, isSpace c = true := by
  simpa [typed] using by decide

theorem readWithin_text (ht : Admissible limit t) (hb : Blanks b) (hs : Stops limit t rest) :
    readWithin limit (b ++ (t.text.toList ++ rest)) = .ok (t, rest) :=
  readWithin_eq_ok_iff.mpr ⟨ht, hs, b, t.text.toList, rfl, hb, renders_text t⟩

theorem readWithin_typed (ht : Admissible limit t) (hd : IsDescription desc) :
    readWithin limit (typed t desc).toList = .ok (t, (trailing desc).toList) := by
  have stops := (plain_trailing hd).stops (mark?_trailing hd (by decide)) ht
  have read := readWithin_text (b := [' ']) ht (by decide) stops
  simpa [typed] using read

/-- No type begins with the mark of an optional place. -/
theorem questionMark_of_read (h : readWithin limit cs = .ok (t, rest)) :
    questionMark cs = (false, cs) := by
  rw [questionMark, mark?_of_read h (by decide) (by decide)]

theorem dropBlanks_inked (hb : Blanks b) (h : ∃ c cs, w = c :: cs ∧ isBlank c = false)
    (rest : List Char) : dropBlanks (b ++ (w ++ rest)) = w ++ rest := by
  obtain ⟨c, cs, rfl, hc⟩ := h
  rw [dropBlanks_append hb, List.cons_append, dropBlanks_cons hc]

theorem parameter_typed {nm : Reader String} {Fit : String → Prop} (names : ReadsNames nm Fit)
    (hb : Blanks b) (hn : Fit name) (ht : Admissible limit t) (hd : IsDescription desc) :
    parameter limit nm (b ++ (name.toList ++ (typed t desc).toList)) =
      .ok ⟨name, t, desc, []⟩ := by
  have read := readWithin_typed ht hd
  rw [parameter, dropBlanks_inked hb (names.inked hn)]
  refine bind_eq_ok_iff.mpr ⟨_, names.reads hn (identEnds_typed t desc), ?_⟩
  simp only [questionMark_of_read read]
  refine bind_eq_ok_iff.mpr ⟨_, read, ?_⟩
  simp only [description_trailing hd]
  rfl

end Annodoc.Comment
