import Annodoc.Proofs.LuaType.Compound

/-!
# Reading keywords and names

The types that begin with a letter, a digit or an underscore. The first word, the dots behind it
and what follows them settle which form is read; each form is read back from its own text.
-/

namespace Annodoc.LuaType
open Grammar Text

variable {limit : Nat} {t : LuaType} {cs rest : List Char}

/-- A type that is no union is written at the front of `cs`, without blanks before it. A further
member may follow. -/
structure StandsSingle (limit : Nat) (t : LuaType) (cs rest : List Char) : Prop where
  notUnion : t.isUnion = false
  admissible : Admissible limit t
  spans : Spans t.pieces cs rest
  ends : Ends limit t rest

theorem brackets?_eq_some_iff : brackets? cs = some rest ↔ cs = '[' :: ']' :: rest := by
  unfold brackets?
  split
  · simp
  · rename_i h
    simp only [reduceCtorEq, false_iff]
    exact h rest

theorem ofText?_eq_some_iff {k : Keyword} {word : String} :
    Keyword.ofText? word = some k ↔ word = k.text := by
  constructor
  · intro h
    simpa [eq_comm] using List.find?_some h
  · intro eq
    subst eq
    cases k <;> decide

theorem element?_eq_some_iff {k : Keyword} {e : Element} : k.element? = some e ↔ e.val = k := by
  unfold Keyword.element?
  split
  · simp only [Option.some.injEq]
    constructor
    · intro eq
      subst eq
      rfl
    · intro eq
      subst eq
      rfl
  · rename_i hk
    simp only [reduceCtorEq, false_iff]
    intro eq
    subst eq
    exact hk e.property

/-- The dot between two parts ends the first of them. -/
theorem identEnds_dotted (ps : List String) (h : WordEnds rest) :
    IdentEnds ((ps.flatMap fun p => '.' :: p.toList) ++ rest) := by
  cases ps with
  | nil => exact h.1
  | cons p ps => simp [IdentEnds, show isIdent '.' = false by decide]

theorem ofText?_eq_none_of_digits {s : String} (hne : s.toList ≠ [])
    (hd : ∀ c ∈ s.toList, c.isDigit = true) : Keyword.ofText? s = none ∧ s ≠ "fun" := by
  constructor
  · cases h : Keyword.ofText? s with
    | none => rfl
    | some k =>
      obtain rfl := ofText?_eq_some_iff.mp h
      cases k <;> exact absurd (List.all_eq_true.mpr hd) (by decide)
  · intro eq
    subst eq
    exact absurd (List.all_eq_true.mpr hd) (by decide)

theorem dottedParts_of_parts {ps : List String} (hp : ∀ p ∈ ps, IsWord p) (he : WordEnds rest) :
    dottedParts ((ps.flatMap fun p => '.' :: p.toList) ++ rest) = (ps, rest) := by
  induction ps with
  | nil =>
    rw [List.flatMap_nil, List.nil_append]
    unfold dottedParts
    split
    · rename_i r
      have none : identPart r = [] := by
        rw [identPart_eq_nil_iff]
        intro c hc
        cases r with
        | nil => simp at hc
        | cons d ds =>
          obtain rfl : d = c := by simpa using hc
          exact he.2 d ds rfl
      simp [none]
    · rfl
  | cons p ps ih =>
    have hw := hp p (by simp)
    have ends := identEnds_dotted ps he
    rw [List.flatMap_cons, List.cons_append, List.cons_append, List.append_assoc]
    rw [dottedParts, identPart_append hw.2 ends, afterIdent_append hw.2 ends,
      ih fun q hq => hp q (List.mem_cons_of_mem p hq)]
    simp [hw.1, String.ofList_toList]

theorem dottedParts_spec (h : IdentEnds cs) : (∀ p ∈ (dottedParts cs).1, IsWord p) ∧
    cs = ((dottedParts cs).1.flatMap fun p => '.' :: p.toList) ++ (dottedParts cs).2 ∧
      WordEnds (dottedParts cs).2 := by
  fun_induction dottedParts cs with
  | case1 r hr =>
    refine ⟨by simp, by simp, h, ?_⟩
    rintro c ds eq
    obtain ⟨-, rfl⟩ := List.cons.inj eq
    exact identPart_eq_nil_iff.mp hr c (by simp)
  | case2 r hr parts after eq ih =>
    have ih := ih (identEnds_afterIdent r)
    rw [eq] at ih
    obtain ⟨words, split, ends⟩ := ih
    refine ⟨?_, ?_, ends⟩
    · exact List.forall_mem_cons.mpr ⟨isWord_ofList hr fun _ => isIdent_of_mem_identPart, words⟩
    · simp [← split, identPart_append_afterIdent]
  | case3 cs hcs =>
    refine ⟨by simp, by simp, h, ?_⟩
    rintro c ds rfl
    exact absurd rfl (hcs (c :: ds))

theorem listTail?_eq_some_iff {k : Keyword} : listTail? k cs = some (t, rest) ↔
    ∃ e : Element, t = .list e ∧ e.val = k ∧ cs = '[' :: ']' :: rest ∧ IdentEnds rest := by
  constructor
  · intro h
    unfold listTail? at h
    split at h
    · rename_i e r he hb
      split at h
      · rename_i hr
        obtain ⟨rfl, rfl⟩ : LuaType.list e = t ∧ r = rest := by simpa using h
        exact ⟨e, rfl, element?_eq_some_iff.mp he, brackets?_eq_some_iff.mp hb,
          identPart_eq_nil_iff.mp hr⟩
      · exact absurd h (by simp)
    · exact absurd h (by simp)
  · intro h
    obtain ⟨e, rfl, he, rfl, hr⟩ := h
    simp [listTail?, element?_eq_some_iff.mpr he, brackets?, identPart_eq_nil_iff.mpr hr]

theorem listTail?_eq_none_iff {k : Keyword} : listTail? k cs = none ↔
    (k ≠ .nil → ∀ r, cs = '[' :: ']' :: r → ¬IdentEnds r) := by
  constructor
  · intro h hk r hcs hr
    have found := listTail?_eq_some_iff.mpr ⟨⟨k, hk⟩, rfl, rfl, hcs, hr⟩
    simp [h] at found
  · intro h
    cases found : listTail? k cs with
    | none => rfl
    | some found' =>
      obtain ⟨t, r⟩ := found'
      obtain ⟨e, -, rfl, hcs, hr⟩ := listTail?_eq_some_iff.mp found
      exact absurd hr (h e.property r hcs)

theorem keywordTail_sound (exactly : ReadsExactly limit) {k : Keyword} (he : WordEnds cs)
    (h : keywordTail (readWithin limit) k cs = .ok (t, rest)) :
    StandsSingle (limit + 1) t (k.text.toList ++ cs) rest := by
  rw [keywordTail] at h
  cases hl : listTail? k cs with
  | some found =>
    obtain ⟨t', r⟩ := found
    obtain ⟨rfl, rfl⟩ : t' = t ∧ r = rest := by simpa [hl] using h
    obtain ⟨e, rfl, rfl, rfl, hr⟩ := listTail?_eq_some_iff.mp hl
    exact ⟨rfl, admissible_list e, spans_token.mpr ⟨r, by simp, spans_nil.mpr rfl⟩, .list hr⟩
  | none =>
    have kept : (k = .table → NoMap limit cs) → t = .keyword k ∧ cs = rest →
        StandsSingle (limit + 1) t (k.text.toList ++ cs) rest := by
      rintro hm ⟨rfl, rfl⟩
      exact ⟨rfl, admissible_keyword k, spans_token.mpr ⟨cs, rfl, spans_nil.mpr rfl⟩,
        .keyword he (listTail?_eq_none_iff.mp hl) hm⟩
    by_cases hk : k = .table
    · subst hk
      cases hm : mapTail (readWithin limit) cs with
      | ok found =>
        obtain ⟨t', r⟩ := found
        obtain ⟨rfl, rfl⟩ : t' = t ∧ r = rest := by simpa [hl, hm] using h
        obtain ⟨key, value, rfl, ak, av, hs⟩ := (mapTail_eq_ok_iff exactly).mp hm
        exact ⟨rfl, admissible_map.mpr ⟨ak, av⟩, spans_token.mpr ⟨cs, rfl, hs⟩, .map⟩
      | error stop =>
        by_cases hd : stop.expected = .shallowerType
        · simp [hl, hm, hd] at h
        · refine kept (fun _ => ⟨stop, hm, hd⟩) ?_
          obtain ⟨rfl, rfl⟩ : LuaType.keyword .table = t ∧ cs = rest := by
            simpa [hl, hm, hd] using h
          exact ⟨rfl, rfl⟩
    · refine kept (fun h => absurd h hk) ?_
      obtain ⟨rfl, rfl⟩ : LuaType.keyword k = t ∧ cs = rest := by simpa [hl, hk] using h
      exact ⟨rfl, rfl⟩

theorem keywordTail_list {nested : Reader LuaType} (e : Element) (h : IdentEnds rest) :
    keywordTail nested e.val ('[' :: ']' :: rest) = .ok (.list e, rest) := by
  rw [keywordTail, listTail?_eq_some_iff.mpr ⟨e, rfl, rfl, rfl, h⟩]

theorem keywordTail_map {nested : Reader LuaType} (hb : ∀ r, cs ≠ '[' :: ']' :: r)
    (h : mapTail nested cs = .ok (t, rest)) : keywordTail nested .table cs = .ok (t, rest) := by
  rw [keywordTail, listTail?_eq_none_iff.mpr fun _ r hcs => absurd hcs (hb r)]
  simp [h]

theorem keywordTail_keyword {k : Keyword} (h : Ends (limit + 1) (.keyword k) rest) :
    keywordTail (readWithin limit) k rest = .ok (.keyword k, rest) := by
  cases h with
  | keyword he hb hm =>
    rw [keywordTail, listTail?_eq_none_iff.mpr hb]
    by_cases hk : k = .table
    · obtain ⟨stop, eq, hd⟩ := hm hk
      simp [hk, eq, hd]
    · simp [hk]

/-- Without letters, digits and underscores in front there is no word to read. -/
theorem word_of_empty {nested : Reader LuaType} (h : identPart cs = []) :
    word nested cs = .error ⟨.aType, cs⟩ := by
  have noKeyword : Keyword.ofText? (String.ofList []) = none := by decide
  rw [word, h]
  cases dottedParts (afterIdent cs) with
  | mk parts after => cases parts <;> simp [noKeyword]

theorem word_undotted {nested : Reader LuaType} {w : List Char}
    (hw : ∀ c ∈ w, isIdent c = true) (he : WordEnds rest) :
    word nested (w ++ rest) = (Keyword.ofText? (String.ofList w)).elim
      (if String.ofList w = "fun" then functionTail nested rest
        else if w ≠ [] ∧ w.all Char.isDigit then .ok (.number (String.ofList w), rest)
        else .error ⟨.aType, w ++ rest⟩)
      fun k => keywordTail nested k rest := by
  have none : ∀ p ∈ ([] : List String), IsWord p := by simp
  have hd : dottedParts rest = ([], rest) := dottedParts_of_parts none he
  simp only [word, identPart_append hw he.1, afterIdent_append hw he.1, hd]
  cases Keyword.ofText? (String.ofList w) <;> rfl

theorem word_dotted {nested : Reader LuaType} {p q : String} {ps : List String}
    (hp : ∀ r ∈ p :: q :: ps, IsWord r) (he : WordEnds rest) :
    word nested ((".".intercalate (p :: q :: ps)).toList ++ rest) =
      .ok ((brackets? rest).elim (.named (p :: q :: ps) false, rest)
        fun after => (.named (p :: q :: ps) true, after)) := by
  have ends := identEnds_dotted (q :: ps) he
  have hw := hp p (by simp)
  have hd := dottedParts_of_parts (fun r hr => hp r (List.mem_cons_of_mem p hr)) he
  rw [toList_dotted, List.append_assoc]
  simp only [word, identPart_append hw.2 ends, afterIdent_append hw.2 ends, hd, hw.1, if_false,
    String.ofList_toList]
  cases brackets? rest <;> rfl

theorem word_sound_dotted {p q : String} {ps : List String} {after : List Char}
    {nested : Reader LuaType} (hp : ∀ r ∈ p :: q :: ps, IsWord r) (he : WordEnds after)
    (h : word nested ((".".intercalate (p :: q :: ps)).toList ++ after) = .ok (t, rest)) :
    StandsSingle (limit + 1) t ((".".intercalate (p :: q :: ps)).toList ++ after) rest := by
  have adm : ∀ b, Admissible (limit + 1) (.named (p :: q :: ps) b) :=
    fun b => admissible_named.mpr ⟨by simp, hp⟩
  rw [word_dotted hp he] at h
  cases hb : brackets? after with
  | some r =>
    obtain ⟨rfl, rfl⟩ : LuaType.named (p :: q :: ps) true = t ∧ r = rest := by simpa [hb] using h
    obtain rfl := brackets?_eq_some_iff.mp hb
    exact ⟨rfl, adm true, spans_token.mpr ⟨r, by simp, spans_nil.mpr rfl⟩, .namedList⟩
  | none =>
    obtain ⟨rfl, rfl⟩ : LuaType.named (p :: q :: ps) false = t ∧ after = rest := by
      simpa [hb] using h
    refine ⟨rfl, adm false, spans_token.mpr ⟨after, by simp, spans_nil.mpr rfl⟩, .named he ?_⟩
    rintro ds rfl
    simp [brackets?] at hb

theorem word_sound_undotted (exactly : ReadsExactly limit) {w after : List Char}
    (hw : ∀ c ∈ w, isIdent c = true) (he : WordEnds after)
    (h : word (readWithin limit) (w ++ after) = .ok (t, rest)) :
    StandsSingle (limit + 1) t (w ++ after) rest := by
  rw [word_undotted hw he] at h
  cases hk : Keyword.ofText? (String.ofList w) with
  | some k =>
    rw [hk] at h
    have eq : w = k.text.toList := by rw [← ofText?_eq_some_iff.mp hk, String.toList_ofList]
    rw [eq]
    exact keywordTail_sound exactly he h
  | none =>
    simp only [hk, Option.elim_none] at h
    split at h
    · rename_i hf
      obtain ⟨ps, ret, rfl, ha, hs, hends⟩ := (functionTail_eq_ok_iff exactly).mp h
      have eq : w = "fun".toList := by rw [← hf, String.toList_ofList]
      exact ⟨rfl, ha, spans_token.mpr ⟨after, by rw [eq], hs⟩, hends⟩
    · split at h
      · rename_i hd
        obtain ⟨rfl, rfl⟩ : LuaType.number (String.ofList w) = t ∧ after = rest := by
          simpa using h
        have digits : ∀ c ∈ w, c.isDigit = true := List.all_eq_true.mp hd.2
        exact ⟨rfl, admissible_number.mpr (by simpa using ⟨hd.1, digits⟩),
          spans_token.mpr ⟨after, by simp, spans_nil.mpr rfl⟩, .number he⟩
      · exact absurd h (by simp)

/-- The first word and the parts behind its dots are found, so one of the two forms is read. -/
theorem word_sound (exactly : ReadsExactly limit)
    (h : word (readWithin limit) cs = .ok (t, rest)) : StandsSingle (limit + 1) t cs rest := by
  obtain ⟨words, split, ends⟩ := dottedParts_spec (identEnds_afterIdent cs)
  have hw : ∀ c ∈ identPart cs, isIdent c = true := fun _ => isIdent_of_mem_identPart
  have hcs := identPart_append_afterIdent cs
  cases hd : dottedParts (afterIdent cs) with
  | mk parts after =>
    rw [hd] at words split ends
    cases parts with
    | nil =>
      obtain rfl : afterIdent cs = after := split
      rw [← hcs] at h ⊢
      exact word_sound_undotted exactly hw ends h
    | cons q ps =>
      have hne : identPart cs ≠ [] := by
        intro none
        simp [word, hd, none] at h
      have hp : ∀ r ∈ String.ofList (identPart cs) :: q :: ps, IsWord r :=
        List.forall_mem_cons.mpr ⟨isWord_ofList hne hw, words⟩
      have form : (".".intercalate (String.ofList (identPart cs) :: q :: ps)).toList ++ after =
          cs := by
        rw [toList_dotted, String.toList_ofList, List.append_assoc, ← split, hcs]
      rw [← form] at h ⊢
      exact word_sound_dotted hp ends h

theorem word_keyword {k : Keyword} (h : Ends (limit + 1) (.keyword k) rest) :
    word (readWithin limit) (k.text.toList ++ rest) = .ok (.keyword k, rest) := by
  have ends : WordEnds rest := by
    cases h with
    | keyword he => exact he
  rw [word_undotted (isWord_text k).2 ends, String.ofList_toList, ofText?_eq_some_iff.mpr rfl,
    Option.elim_some]
  exact keywordTail_keyword h

theorem word_list {nested : Reader LuaType} (e : Element) (h : IdentEnds rest) :
    word nested (e.val.text.toList ++ '[' :: ']' :: rest) = .ok (.list e, rest) := by
  rw [word_undotted (isWord_text e.val).2 (wordEnds_of_mark? (c := '[') rfl rfl (by decide)),
    String.ofList_toList, ofText?_eq_some_iff.mpr rfl, Option.elim_some]
  exact keywordTail_list e h

theorem word_number {nested : Reader LuaType} {digits : String} (hne : digits.toList ≠ [])
    (hd : ∀ c ∈ digits.toList, c.isDigit = true) (he : WordEnds rest) :
    word nested (digits.toList ++ rest) = .ok (.number digits, rest) := by
  obtain ⟨hk, hf⟩ := ofText?_eq_none_of_digits hne hd
  rw [word_undotted (fun c hc => isIdent_of_isDigit (hd c hc)) he, String.ofList_toList, hk]
  simp only [Option.elim_none, hf, if_false]
  rw [if_pos ⟨hne, List.all_eq_true.mpr hd⟩]

theorem word_map {nested : Reader LuaType} (h : mapTail nested cs = .ok (t, rest)) :
    word nested ("table".toList ++ cs) = .ok (t, rest) := by
  obtain ⟨_, opened, -⟩ := bind_eq_ok_iff.mp h
  have hm := mark_eq_ok_iff.mp opened
  have hw : IsWord "table" := by decide
  have unlisted : ∀ r, cs ≠ '[' :: ']' :: r := by
    rintro r rfl
    exact absurd hm (by simp [mark?, dropBlanks, isBlank])
  rw [word_undotted hw.2 (wordEnds_of_mark? hm rfl (by decide)), String.ofList_toList,
    show Keyword.ofText? "table" = some .table by decide, Option.elim_some]
  exact keywordTail_map unlisted h

theorem word_function {nested : Reader LuaType} (h : functionTail nested cs = .ok (t, rest)) :
    word nested ("fun".toList ++ cs) = .ok (t, rest) := by
  obtain ⟨_, opened, -⟩ := bind_eq_ok_iff.mp h
  have hw : IsWord "fun" := by decide
  have ends := wordEnds_of_mark? (mark_eq_ok_iff.mp opened) rfl (by decide)
  rw [word_undotted hw.2 ends, String.ofList_toList, show Keyword.ofText? "fun" = none by decide]
  simpa using h

end Annodoc.LuaType
