import Annodoc.Proofs.LuaType.Offsets

/-!
# The rules at an offset

What each rule of the grammar does at the offset where an end of the text begins, by the first word
there and what follows it.
-/

namespace Annodoc
open Text Grammar LuaType

namespace AtOffset
variable {text cs rest : List Char}

theorem listRule_cons (e : Element) (es : List Element) (inside : cs <:+ text) :
    listRule text (e :: es) (offset text cs) =
      match (Grammar.literal? e.val.text cs).bind (Grammar.literal? "[]") with
      | some rest =>
        if rest.head?.any isIdent then listRule text es (offset text cs)
        else pure (.list e, offset text rest)
      | none => listRule text es (offset text cs) := by
  rw [listRule, literal?_offset _ inside, pure_bind]
  cases name : Grammar.literal? e.val.text cs with
  | none => rfl
  | some behind =>
    obtain rfl := literal?_eq_some_iff.mp name
    have left : behind <:+ text := (List.suffix_append _ _).trans inside
    simp only [Option.map_some, literal?_offset _ left, pure_bind, Option.bind_some]
    cases brackets : Grammar.literal? "[]" behind with
    | none => rfl
    | some rest =>
      obtain rfl := literal?_eq_some_iff.mp brackets
      simp only [Option.map_some,
        byteIs_offset onAscii_isIdent ((List.suffix_append _ _).trans left)]

theorem element_brackets_iff {e : Element} :
    (Grammar.literal? e.val.text cs).bind (Grammar.literal? "[]") = some rest ↔
      cs = e.val.text.toList ++ '[' :: ']' :: rest := by
  simp only [Option.bind_eq_some_iff, literal?_eq_some_iff]
  constructor
  · rintro ⟨_, rfl, rfl⟩
    rfl
  · rintro rfl
    exact ⟨_, rfl, rfl⟩

/-- The word and the rest behind it, where the name of an element stands in front of brackets. -/
theorem word_of_element {e : Element} (h : cs = e.val.text.toList ++ '[' :: ']' :: rest) :
    Keyword.ofText? (String.ofList (identPart cs)) = some e.val ∧
      afterIdent cs = '[' :: ']' :: rest := by
  have ends : IdentEnds ('[' :: ']' :: rest) := by
    rintro _ ⟨⟩
    decide
  have word := (isWord_text e.val).2
  rw [h, identPart_append word ends, afterIdent_append word ends, String.ofList_toList]
  exact ⟨ofText?_eq_some_iff.mpr rfl, rfl⟩

theorem listRule_found {e : Element} {es : List Element} (mem : e ∈ es) (inside : cs <:+ text)
    (h : cs = e.val.text.toList ++ '[' :: ']' :: rest) (ends : IdentEnds rest) :
    listRule text es (offset text cs) = pure (.list e, offset text rest) := by
  induction es with
  | nil => cases mem
  | cons first es ih =>
    rw [listRule_cons first es inside]
    rcases List.mem_cons.mp mem with rfl | mem
    · rw [element_brackets_iff.mpr h]
      simp only [identEnds_iff.mp ends, Bool.false_eq_true, if_false]
    · split
      · next other found =>
        have again := element_brackets_iff.mp found
        have same := (word_of_element again).1.symm.trans (word_of_element h).1
        obtain rfl := Subtype.ext (Option.some.inj same)
        obtain rfl : other = rest := by simpa using again.symm.trans h
        simp only [identEnds_iff.mp ends, Bool.false_eq_true, if_false]
      · exact ih mem

theorem listRule_misses (es : List Element) (inside : cs <:+ text)
    (none : ∀ k, Keyword.ofText? (String.ofList (identPart cs)) = some k →
      listTail? k (afterIdent cs) = none) : Misses text (offset text cs) (listRule text es) := by
  induction es with
  | nil => rfl
  | cons e es ih =>
    rw [Misses, listRule_cons e es inside]
    split
    · next rest found =>
      obtain ⟨word, after⟩ := word_of_element (element_brackets_iff.mp found)
      have goesOn : ¬ IdentEnds rest := by
        intro ends
        have list := listTail?_eq_some_iff.mpr ⟨e, rfl, rfl, after, ends⟩
        rw [none _ word] at list
        cases list
      have ident : rest.head?.any isIdent = true := by simpa using mt identEnds_iff.mpr goesOn
      rw [if_pos ident]
      exact ih
    · exact ih

theorem wordRule_offset {word : String} (ident : ∀ c ∈ word.toList, isIdent c = true)
    (tail : Rule) (inside : cs <:+ text) : wordRule text word tail (offset text cs) =
      if identPart cs = word.toList then tail (offset text (afterIdent cs))
      else failAt text (offset text cs) .aType := by
  rw [wordRule, keyword?_offset ident inside, pure_bind]
  by_cases same : identPart cs = word.toList
  · rw [if_pos same, if_pos same]
  · rw [if_neg same, if_neg same]

theorem tableRule_brace (nested : Rule) (inside : '\x7b' :: cs <:+ text) :
    tableRule text nested (offset text ('\x7b' :: cs)) =
      tableTail text nested (offset text cs) := by
  have found : Grammar.literal? "\x7b" ('\x7b' :: cs) = some cs := literal?_eq_some_iff.mpr rfl
  rw [tableRule, literal?_offset _ inside, found]
  rfl

theorem tableRule_misses (inside : cs <:+ text) (other : ∀ rest, cs ≠ '\x7b' :: rest) :
    Misses text (offset text cs) (tableRule text nested) := by
  have absent : Grammar.literal? "\x7b" cs = none := literal?_eq_none other
  rw [Misses, tableRule, literal?_offset _ inside, absent]
  rfl

/-- A word takes bytes. -/
theorem offset_lt_afterIdent (word : identPart cs ≠ []) (inside : cs <:+ text) :
    offset text cs < offset text (afterIdent cs) := by
  have split := identPart_append_afterIdent cs
  have behind := offset_append (split.symm ▸ inside)
  have size := byteLength_pos word
  rw [split] at behind
  omega

theorem dottedEnd_offset (inside : cs <:+ text) :
    dottedEnd text (offset text cs) = pure (offset text (dottedParts cs).2) := by
  fun_induction dottedParts cs with
  | case1 rest none =>
    have found : Grammar.literal? "." ('.' :: rest) = some rest := literal?_eq_some_iff.mpr rfl
    have next : offset text rest = offset text ('.' :: rest) + 1 :=
      @offset_append text ['.'] rest inside
    have stays : afterIdent rest = rest := by
      have split := identPart_append_afterIdent rest
      rwa [none] at split
    rw [dottedEnd, literal?_offset _ inside, found, pure_bind, Option.map_some, ← next]
    dsimp only
    rw [identEnd_offset ((List.suffix_cons _ _).trans inside), pure_bind, stays,
      if_neg (Nat.lt_irrefl _)]
  | case2 rest more parts after eq ih =>
    have left : rest <:+ text := (List.suffix_cons _ _).trans inside
    have found : Grammar.literal? "." ('.' :: rest) = some rest := literal?_eq_some_iff.mpr rfl
    have next : offset text rest = offset text ('.' :: rest) + 1 :=
      @offset_append text ['.'] rest inside
    rw [dottedEnd, literal?_offset _ inside, found, pure_bind, Option.map_some, ← next]
    dsimp only
    have behind := (afterIdent_suffix rest).trans left
    rw [identEnd_offset left, pure_bind, if_pos (offset_lt_afterIdent more left),
      if_pos (isBoundary_offset behind).le_byteLength, ih behind, eq]
  | case3 cs other =>
    have absent : Grammar.literal? "." cs = none := literal?_eq_none other
    rw [dottedEnd, literal?_offset _ inside, absent]
    rfl

theorem quotedText_eq_none {q : Quote} (h : quotedText q cs = none) : q.char ∉ cs := by
  intro mem
  obtain ⟨front, rest, split, absent⟩ := List.eq_append_cons_of_mem mem
  have found : quotedText q cs = some (.literal q (String.ofList front), rest) :=
    quotedText_eq_some_iff.mpr
      ⟨_, rfl, by rwa [String.toList_ofList], by rwa [String.toList_ofList]⟩
  rw [h] at found
  cases found

/-- A text between quotes, or nothing when the closing quote is missing. -/
theorem primitiveRule_quoted (q : Quote) (inside : q.char :: cs <:+ text) :
    primitiveRule text (offset text (q.char :: cs)) =
      match quotedText q cs with
      | some found => pure (leavingAt text found)
      | none => failAt text (offset text (q.char :: cs)) .aType := by
  have begins : quote? (q.char :: cs) = some q := by cases q <;> rfl
  have size : q.char.utf8Size = 1 := by cases q <;> rfl
  have behind : afterBytes? 1 (q.char :: cs) = some cs := by simp [afterBytes?, size]
  simp only [primitiveRule, afterBytes?_offset inside, lift_some, pure_bind, begins, behind]
  cases found : quotedText q cs with
  | none =>
    have absent : ∀ d ∈ cs, decide (d = q.char) = false := by
      intro d mem
      exact decide_eq_false fun same => quotedText_eq_none found (same ▸ mem)
    rw [findOffset?_eq_none absent]
  | some result =>
    obtain ⟨t, rest⟩ := result
    obtain ⟨s, rfl, absent, rfl⟩ := quotedText_eq_some_iff.mp found
    have front : ∀ d ∈ s.toList, decide (d = q.char) = false := by
      intro d mem
      exact decide_eq_false fun same => absent (same ▸ mem)
    have whole : q.char :: (s.toList ++ q.char :: rest) =
        (q.char :: s.toList ++ [q.char]) ++ rest := by simp
    rw [whole] at inside ⊢
    have stop : offset text (q.char :: s.toList ++ [q.char] ++ rest) + byteLength s.toList + 2 =
        offset text rest := by
      rw [offset_append inside, byteLength_append, byteLength, byteLength, size, byteLength]
      omega
    rw [findOffset?_append front (by simp)]
    dsimp only
    rw [stop, between?_offset inside]
    simp

theorem brackets?_eq (cs : List Char) : brackets? cs = Grammar.literal? "[]" cs := by
  ext rest
  rw [brackets?_eq_some_iff, literal?_eq_some_iff]
  rfl

/-- The parts of a dotted name are what its text is split into. -/
theorem splitOn_dotted {p : String} {ps : List String} (words : ∀ q ∈ p :: ps, IsWord q) :
    ((p.toList ++ ps.flatMap fun q => '.' :: q.toList).splitOn '.').map String.ofList =
      p :: ps := by
  have inside : ∀ l ∈ (p :: ps).map String.toList, '.' ∉ l := by
    rw [List.forall_mem_map]
    intro q mem dot
    exact absurd ((words q mem).2 '.' dot) (by decide)
  have split := List.splitOn_intercalate '.' inside (by simp)
  have dot : ".".toList = ['.'] := rfl
  rw [← toList_dotted, String.toList_intercalate, dot, split]
  simp [Function.comp_def]

/-- The characters of a dotted name. -/
theorem isIdent_or_dot {p : String} {ps : List String} {c : Char}
    (words : ∀ q ∈ p :: ps, IsWord q)
    (mem : c ∈ p.toList ++ ps.flatMap fun q => '.' :: q.toList) : isIdent c = true ∨ c = '.' := by
  obtain ⟨first, others⟩ := List.forall_mem_cons.mp words
  rcases List.mem_append.mp mem with mem | mem
  · exact .inl (first.2 c mem)
  · obtain ⟨q, hq, mem⟩ := List.mem_flatMap.mp mem
    rcases List.mem_cons.mp mem with rfl | mem
    · exact .inr rfl
    · exact .inl ((others q hq).2 c mem)

theorem dottedName_offset {p : String} {ps : List String} (words : ∀ q ∈ p :: ps, IsWord q)
    (h : cs = (p.toList ++ ps.flatMap fun q => '.' :: q.toList) ++ rest) (inside : cs <:+ text) :
    dottedName text (offset text cs) (offset text rest) =
      pure (.named (p :: ps) (brackets? rest).isSome,
        offset text ((brackets? rest).getD rest)) := by
  subst h
  have left := (List.suffix_append _ rest).trans inside
  have parts := splitOn_dotted words
  generalize eq : (p.toList ++ ps.flatMap fun q => '.' :: q.toList) = front at inside parts ⊢
  have noBracket : ∀ c ∈ front, decide (c ≠ '[') = true := by
    intro c mem
    rcases isIdent_or_dot words (eq ▸ mem) with ident | rfl
    · exact decide_eq_true fun same => absurd (same ▸ ident) (by decide)
    · decide
  rw [dottedName, literal?_offset _ left, ← brackets?_eq, pure_bind]
  cases found : brackets? rest with
  | none =>
    rw [Option.map_none, Option.getD_none, between?_offset inside, lift_some, pure_bind,
      List.takeWhile_eq_self_iff.mpr noBracket]
    dsimp only
    rw [parts]
    rfl
  | some after =>
    obtain rfl := brackets?_eq_some_iff.mp found
    have whole : front ++ '[' :: ']' :: after = (front ++ ['[', ']']) ++ after := by simp
    rw [whole] at inside ⊢
    rw [Option.map_some, Option.getD_some, between?_offset inside, lift_some, pure_bind,
      List.takeWhile_append_of_pos noBracket]
    dsimp only
    rw [show ['[', ']'].takeWhile (· ≠ '[') = [] from rfl, List.append_nil, parts]
    rfl

/-- A name with dots, a keyword or digits. -/
theorem primitiveRule_word (begins : quote? cs = none) (inside : cs <:+ text) :
    primitiveRule text (offset text cs) =
      if identPart cs = [] then failAt text (offset text cs) .aType else
        match dottedParts (afterIdent cs) with
        | ([], rest) =>
          match Keyword.ofText? (String.ofList (identPart cs)) with
          | some k => pure (.keyword k, offset text rest)
          | none =>
            if (identPart cs).all Char.isDigit
            then pure (.number (String.ofList (identPart cs)), offset text rest)
            else failAt text (offset text cs) .aType
        | (parts, rest) =>
          pure (.named (String.ofList (identPart cs) :: parts) (brackets? rest).isSome,
            offset text ((brackets? rest).getD rest)) := by
  have after : afterIdent cs <:+ text := (afterIdent_suffix cs).trans inside
  simp only [primitiveRule, afterBytes?_offset inside, lift_some, pure_bind, begins,
    identEnd_offset inside]
  by_cases word : identPart cs = []
  · have stays : afterIdent cs = cs := by
      have split := identPart_append_afterIdent cs
      rwa [word] at split
    rw [stays, if_pos rfl, if_pos word]
  · have past := offset_lt_afterIdent word inside
    rw [if_neg (by omega), if_neg word, dottedEnd_offset after, pure_bind]
    obtain ⟨words, split, ends⟩ := dottedParts_spec (identEnds_afterIdent cs)
    generalize dottedParts (afterIdent cs) = dots at words split ends ⊢
    obtain ⟨parts, rest⟩ := dots
    have whole : cs = (identPart cs ++ parts.flatMap fun p => '.' :: p.toList) ++ rest := by
      rw [List.append_assoc, ← split, identPart_append_afterIdent]
    dsimp only
    have cut := between?_offset (whole ▸ inside)
    rw [← whole] at cut
    rw [cut, lift_some, pure_bind]
    cases parts with
    | nil =>
      rw [List.flatMap_nil, List.nil_append] at split
      rw [split, List.flatMap_nil, List.append_nil]
      exact if_neg (Nat.lt_irrefl _)
    | cons p ps =>
      have longer : offset text (afterIdent cs) < offset text rest := by
        rw [split] at after ⊢
        rw [offset_append after]
        exact Nat.lt_add_of_pos_right (byteLength_pos (by simp))
      rw [if_pos longer]
      refine dottedName_offset ?_ ?_ inside
      · exact List.forall_mem_cons.mpr ⟨isWord_ofList word fun _ => isIdent_of_mem_identPart, words⟩
      · rwa [String.toList_ofList]

end AtOffset
end Annodoc
