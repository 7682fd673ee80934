import Annodoc.Proofs.LuaType.Exactness
import Annodoc.Proofs.Text.Bytes

/-!
# Types in a text

The readers by positions. A type that is written at a place of a text, with any blanks where the
grammar skips them, is found there exactly when it ends in front of what follows. What is found is
always such a type, so the types that a text can be read as are those whose written form it is.
-/

namespace Annodoc.LuaType
open Grammar Text

variable {t u : LuaType} {cs rest : List Char} {limit : Nat}

theorem spans_gap_pieces_iff : Spans (.gap false :: t.pieces) cs rest ↔
    ∃ blanks r, cs = blanks ++ (r ++ rest) ∧ Blanks blanks ∧ t.Renders r := by
  rw [spans_gap]
  constructor
  · intro h
    obtain ⟨b, _, hb, rfl, r, rfl, hr⟩ := h
    exact ⟨b, r, rfl, hb, hr⟩
  · intro h
    obtain ⟨b, r, rfl, hb, hr⟩ := h
    exact ⟨b, r ++ rest, hb, rfl, r, rfl, hr⟩

theorem readWithin_eq_ok_iff : readWithin limit cs = .ok (t, rest) ↔
    Admissible limit t ∧ Stops limit t rest ∧
      ∃ blanks r, cs = blanks ++ (r ++ rest) ∧ Blanks blanks ∧ t.Renders r := by
  rw [readsExactly limit cs t rest, ← spans_gap_pieces_iff]
  constructor
  · intro h
    obtain ⟨ha, hs, hstop⟩ := h
    exact ⟨ha, hstop, hs⟩
  · intro h
    obtain ⟨ha, hstop, hs⟩ := h
    exact ⟨ha, hs, hstop⟩

theorem admissible_of_read {cs rest : List Char} (h : readWithin limit cs = .ok (t, rest)) :
    Admissible limit t := (readWithin_eq_ok_iff.mp h).1

theorem parseAt?_eq_ok_iff {text : List Char} {position stop : Nat} :
    parseAt? text position = some (.ok (t, stop)) ↔
      Admissible depthLimit t ∧ ∃ before blanks r after, text = before ++ blanks ++ r ++ after ∧
        byteLength before = position ∧ byteLength (before ++ blanks ++ r) = stop ∧
        Blanks blanks ∧ t.Renders r ∧ Stops depthLimit t after := by
  simp only [parseAt?, Option.map_eq_some_iff, afterBytes?_eq_some_iff]
  constructor
  · intro h
    obtain ⟨cs, ⟨before, rfl, rfl⟩, h⟩ := h
    cases hr : read cs with
    | error stop => simp [hr] at h
    | ok found =>
      obtain ⟨t', after⟩ := found
      obtain ⟨rfl, hstop⟩ : t' = t ∧ byteLength (before ++ cs) - byteLength after = stop := by
        simpa [hr] using h
      obtain ⟨ha, hs, blanks, r, rfl, hb, hr⟩ := readWithin_eq_ok_iff.mp hr
      refine ⟨ha, before, blanks, r, after, by simp, rfl, ?_, hb, hr, hs⟩
      simp only [byteLength_append] at hstop ⊢
      omega
  · intro h
    obtain ⟨ha, before, blanks, r, after, rfl, rfl, rfl, hb, hr, hs⟩ := h
    have found : read (blanks ++ (r ++ after)) = .ok (t, after) :=
      readWithin_eq_ok_iff.mpr ⟨ha, hs, blanks, r, rfl, hb, hr⟩
    refine ⟨blanks ++ (r ++ after), ⟨before, by simp, rfl⟩, ?_⟩
    simp only [found, byteLength_append, Except.ok.injEq, Prod.mk.injEq, true_and]
    omega

/-- A type begins with a word, a brace or a quote. -/
theorem head_of_read (h : readWithin limit cs = .ok (t, rest)) : ∃ c after,
    dropBlanks cs = c :: after ∧ (isIdent c = true ∨ c ∈ ['\x7b', '\'', '"']) := by
  cases limit with
  | zero => cases h
  | succ limit =>
    obtain ⟨⟨ms, _⟩, read, -⟩ := bind_eq_ok_iff.mp h
    obtain ⟨⟨m, _⟩, first, -⟩ := bind_eq_ok_iff.mp read
    simp only [single] at first
    split at first
    · next after front => exact ⟨_, after, front, .inr (by decide)⟩
    · next after front => exact ⟨_, after, front, .inr (by decide)⟩
    · next after front => exact ⟨_, after, front, .inr (by decide)⟩
    · cases front : dropBlanks cs with
      | nil =>
        rw [front, word_of_empty rfl] at first
        cases first
      | cons c after =>
        refine ⟨c, after, rfl, .inl ?_⟩
        by_contra other
        rw [front, word_of_empty (by simp [identPart, other])] at first
        cases first

/-- No type begins with another mark. -/
theorem mark?_of_read {c : Char} (h : readWithin limit cs = .ok (t, rest))
    (hi : isIdent c = false) (hc : c ∉ ['\x7b', '\'', '"']) : mark? c cs = none := by
  obtain ⟨d, after, front, begins⟩ := head_of_read h
  rw [mark?, front]
  refine if_neg ?_
  rintro rfl
  rcases begins with ident | other
  · rw [hi] at ident
    cases ident
  · exact hc other

/-- Blanks may follow every type. -/
theorem stops_of_blanks (h : Blanks rest) (ht : Admissible limit t) : Stops limit t rest :=
  (plain_of_blanks h).stops (mark?_of_blanks h '|') ht

theorem readWholeWithin_eq_ok_iff : readWholeWithin limit cs = .ok t ↔
    Admissible limit t ∧ ∃ before r after, cs = before ++ (r ++ after) ∧ Blanks before ∧
      Blanks after ∧ t.Renders r := by
  simp only [readWholeWithin, bind_eq_ok_iff]
  constructor
  · intro h
    obtain ⟨⟨t', after⟩, hr, h⟩ := h
    obtain ⟨ha, -, before, r, rfl, hb, hr⟩ := readWithin_eq_ok_iff.mp hr
    by_cases hd : dropBlanks after = []
    · obtain rfl : t' = t := by simpa [hd] using h
      exact ⟨ha, before, r, after, rfl, hb, dropBlanks_eq_nil_iff.mp hd, hr⟩
    · simp [hd] at h
  · intro h
    obtain ⟨ha, before, r, after, rfl, hb, hafter, hr⟩ := h
    refine ⟨(t, after), ?_, by simp [dropBlanks_eq_nil_iff.mpr hafter]⟩
    exact readWithin_eq_ok_iff.mpr ⟨ha, stops_of_blanks hafter ha, before, r, rfl, hb, hr⟩

/-- The grammar is unambiguous: a text is a written form of one type at most. -/
theorem WellFormed.eq_of_renders (ht : t.WellFormed) (hu : u.WellFormed) {r : List Char}
    (htr : t.Renders r) (hur : u.Renders r) : t = u := by
  -- A reader whose limit is past both types reads the text as the one and as the other.
  have whole : ∀ v : LuaType, v.WellFormed → v.Renders r → v.nesting < t.nesting + u.nesting + 1 →
      readWholeWithin (t.nesting + u.nesting + 1) r = .ok v := fun v hv hr hn =>
    readWholeWithin_eq_ok_iff.mpr ⟨⟨hv, hn⟩, [], r, [], by simp, blanks_nil, blanks_nil, hr⟩
  have h := (whole t ht htr (by omega)).symm.trans (whole u hu hur (by omega))
  exact Except.ok.inj h

theorem parse_eq_ok_iff {text : String} : parse text = .ok t ↔
    Admissible depthLimit t ∧ ∃ before r after, text.toList = before ++ (r ++ after) ∧
      Blanks before ∧ Blanks after ∧ t.Renders r := by
  rw [← readWholeWithin_eq_ok_iff, parse, mapError_eq_ok_iff]

/-- The text of an admissible type is read as this type again. -/
theorem parse_text (h : Admissible depthLimit t) : parse t.text = .ok t :=
  parse_eq_ok_iff.mpr ⟨h, [], t.text.toList, [], by simp, blanks_nil, blanks_nil, renders_text t⟩

/-- A well-formed type is found behind any text, however it is spaced, if and only if it stops
where its written form does. It stops in front of every plain text with no further member. -/
theorem parseAt?_of_renders (ht : t.WellFormed) (hn : t.nesting ≤ 63) {r blanks : List Char}
    (hr : t.Renders r) (hb : Blanks blanks) (before after : List Char) :
    (parseAt? (before ++ blanks ++ r ++ after) (byteLength before) =
        some (.ok (t, byteLength (before ++ blanks ++ r))) ↔ Stops depthLimit t after) ∧
      (Plain after → mark? '|' after = none → Stops depthLimit t after) := by
  have ha : Admissible depthLimit t := ⟨ht, Nat.lt_succ_of_le hn⟩
  refine ⟨⟨fun h => ?_, fun h => ?_⟩, fun plain hm => plain.stops hm ha⟩
  · obtain ⟨-, before', blanks', r', after', eq, -, hl, -, -, hs⟩ := parseAt?_eq_ok_iff.mp h
    have hlen : byteLength after = byteLength after' := by
      have total := congrArg byteLength eq
      rw [byteLength_append, byteLength_append (before' ++ blanks' ++ r')] at total
      omega
    rwa [eq_of_byteLength_eq eq hlen]
  · exact parseAt?_eq_ok_iff.mpr ⟨ha, before, blanks, r, after, rfl, rfl, rfl, hb, hr, h⟩

theorem parseAt?_of_renders_spaced_map :
    let t := union [keyword .nil, map (keyword .string) (named ["a", "B"] true)]
    t.WellFormed ∧ t.nesting ≤ 63 ∧ t.Renders "nil |\ttable< string,a.B[] >".toList ∧
    Blanks [' '] ∧ parseAt? ("é:".toList ++ [' '] ++ "nil |\ttable< string,a.B[] >".toList ++
      " the é".toList) 3 = some (.ok (t, 31)) := by
  intro t
  have ht : t.WellFormed := by
    refine .union _ (by decide) (by simp [isUnion]) (by simp [hasResult]) ?_
    have value : WellFormed (.named ["a", "B"] true) := .named _ _ (by decide) (by decide)
    simpa using ⟨.keyword .nil, .map _ _ (.keyword .string) value⟩
  have hn : t.nesting ≤ 63 := by decide
  have hr : t.Renders "nil |\ttable< string,a.B[] >".toList := by decide
  have hb : Blanks [' '] := by decide
  have plain : Plain " the é".toList := by
    refine ⟨?_, by decide, by decide⟩
    intro c hc
    obtain rfl : ' ' = c := Option.some.inj hc
    exact head_of_isBlank rfl
  have h := parseAt?_of_renders ht hn hr hb "é:".toList " the é".toList
  exact ⟨ht, hn, hr, hb, h.1.mpr (h.2 plain (by decide))⟩

/-- What is found at a place is a well-formed type in one of its written forms, which begins behind
the blanks there and ends with its last token. A whole text is read as the one type whose
written form it is. -/
theorem parse_reads_renderings :
    (∀ text position t stop, parseAt? text position = some (.ok (t, stop)) →
      t.WellFormed ∧ t.nesting ≤ 63 ∧ ∃ before blanks r after,
        text = before ++ blanks ++ r ++ after ∧ byteLength before = position ∧
        byteLength (before ++ blanks ++ r) = stop ∧ Blanks blanks ∧ Fills t.pieces r ∧
        shown t.pieces = t.text.toList ∧ (∃ c ∈ r.head?, isBlank c = false) ∧
        ∃ c ∈ r.getLast?, isBlank c = false) ∧
    (∀ text t, parse text = .ok t ↔ t.WellFormed ∧ t.nesting ≤ 63 ∧ ∃ before r after,
      text.toList = before ++ (r ++ after) ∧ Blanks before ∧ Blanks after ∧ t.Renders r) ∧
    ∀ t u : LuaType, t.WellFormed → u.WellFormed → ∀ r, t.Renders r → u.Renders r → t = u := by
  refine ⟨fun text position t stop h => ?_, fun text t => ?_,
    fun t u ht hu r => ht.eq_of_renders hu⟩
  · obtain ⟨ha, before, blanks, r, after, eq, hpos, hstop, hb, hr, -⟩ := parseAt?_eq_ok_iff.mp h
    exact ⟨ha.wellFormed, Nat.le_of_lt_succ ha.shallow, before, blanks, r, after, eq, hpos, hstop,
      hb, hr, shown_pieces t, hr.head_not_blank ha.wellFormed.inked,
      hr.last_not_blank ha.wellFormed.inkedEnd⟩
  · rw [parse_eq_ok_iff]
    constructor
    · intro h
      obtain ⟨ha, h⟩ := h
      exact ⟨ha.wellFormed, Nat.le_of_lt_succ ha.shallow, h⟩
    · intro h
      obtain ⟨ht, hn, h⟩ := h
      exact ⟨⟨ht, Nat.lt_succ_of_le hn⟩, h⟩

theorem parse_reads_renderings_function :
    let t := function [⟨"...", true, keyword .any⟩]
      (some (union [keyword .nil, literal .single "é|"]))
    let r := "fun( ...? :any) : nil| 'é|'".toList
    parse " fun( ...? :any) : nil| 'é|' " = .ok t ∧
      parseAt? (' ' :: r) 0 = some (.ok (t, 29)) ∧
      (∃ before blanks r' after, ' ' :: r = before ++ blanks ++ r' ++ after ∧
        byteLength (before ++ blanks ++ r') = 29 ∧ Fills t.pieces r') ∧
      ∀ u : LuaType, u.WellFormed → u.Renders r → u = t := by
  intro t r
  have result : WellFormed (union [keyword .nil, literal .single "é|"]) := by
    refine .union _ (by decide) (by simp [isUnion]) (by simp [hasResult]) ?_
    simpa using ⟨.keyword .nil, .literal .single "é|" (by decide)⟩
  have ht : t.WellFormed := by
    refine .function _ _ ?_ ?_ ?_
    · simp [IsParamName]
    · simpa using WellFormed.keyword .any
    · simpa using result
  have hr : t.Renders r := by decide
  have ha : Admissible depthLimit t := ⟨ht, by decide⟩
  have found : parseAt? (' ' :: r) 0 = some (.ok (t, 29)) :=
    parseAt?_eq_ok_iff.mpr ⟨ha, [], [' '], r, [], by simp, rfl, by decide, by decide, hr,
      stops_of_blanks blanks_nil ha⟩
  obtain ⟨-, -, before, blanks, r', after, eq, -, stop, -, fills, -⟩ :=
    parse_reads_renderings.1 _ _ _ _ found
  refine ⟨?_, found, ⟨before, blanks, r', after, eq, stop, fills⟩, fun u hu h => ?_⟩
  · exact (parse_reads_renderings.2.1 _ t).mpr
      ⟨ht, by decide, [' '], r, [' '], by decide, by decide, by decide, hr⟩
  · exact parse_reads_renderings.2.2 u t hu ht r h hr

end Annodoc.LuaType
