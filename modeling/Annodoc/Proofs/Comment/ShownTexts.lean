import Annodoc.Catalog.Report
import Annodoc.Proofs.Comment.Messages
import Annodoc.Proofs.Comment.TagLines
import Annodoc.Proofs.LuaType.Parsing

/-!
# Texts that a report shows

A report shows outlines of what a source documents, and messages. Their names and values are parts
of single lines of the source, and the text of a type has no other characters than the line that it
was read from, but for the marks and spaces that are put between its tokens. So each of them is on
one line.
-/

namespace Annodoc
open Grammar Text

/-! ## Types -/

/-- Apart from the spaces in its gaps, the canonical text has the characters of every filling. -/
theorem Grammar.Fills.mem_of_mem_shown {ps : List Piece} {r : List Char} (h : Fills ps r) {c : Char}
    (mem : c ∈ shown ps) : c ∈ r ∨ c = ' ' := by
  induction h with
  | nil => simp at mem
  | token fills ih =>
    rw [shown_cons, List.mem_append] at mem
    rw [List.mem_append]
    rcases mem with here | later
    · exact .inl (.inl here)
    · exact (ih later).imp_left .inr
  | @gap spaced b ps r blanks fills ih =>
    rw [shown_cons, List.mem_append] at mem
    rw [List.mem_append]
    rcases mem with here | later
    · cases spaced with
      | false => simp [Piece.shown] at here
      | true => exact .inr (by simpa [Piece.shown] using here)
    · exact (ih later).imp_left .inr

namespace LuaType

variable {limit : Nat} {t : LuaType} {cs rest : List Char}

theorem oneLine_text_of_read (h : readWithin limit cs = .ok (t, rest)) (line : '\n' ∉ cs) :
    OneLine t.text := by
  obtain ⟨-, -, blanks, r, rfl, -, renders⟩ := readWithin_eq_ok_iff.mp h
  intro feed
  rw [← shown_pieces] at feed
  rcases Fills.mem_of_mem_shown renders feed with mem | space
  · simp [mem] at line
  · exact absurd space (by decide)

theorem oneLine_orNil (h : OneLine t.text) : OneLine t.orNil.text := by
  have nil : OneLine Keyword.nil.text := by decide
  have joined : ∀ ms : List LuaType, OneLine (LuaType.union ms).text →
      OneLine (LuaType.union (.keyword .nil :: ms)).text := by
    intro ms h
    rw [LuaType.text, texts_eq_map] at h ⊢
    cases ms with
    | nil => decide
    | cons m ms =>
      rw [List.map_cons, List.map_cons, String.intercalate_cons_cons, oneLine_append,
        oneLine_append]
      exact ⟨⟨nil, by decide⟩, h⟩
  have alone : (LuaType.union [t]).text = t.text := by
    simp [LuaType.text, texts_eq_map]
  cases t with
  | union ms => exact joined ms h
  | _ => exact joined _ (alone ▸ h)

theorem oneLine_ofPlace (h : OneLine t.text) (optional : Bool) :
    OneLine (t.ofPlace optional).text := by
  cases optional with
  | false => exact h
  | true => exact oneLine_orNil h

end LuaType

/-! ## Outlines -/

theorem FunctionDoc.oneLine_outline {f : FunctionDoc} (name : OneLine f.name)
    (params : ∀ p ∈ f.params, OneLine p.name ∧ OneLine p.type.text)
    (returns : ∀ r ∈ f.returns, OneLine r.type.text) : OneLine f.outline := by
  have comma : OneLine ", " := by decide
  have inside : OneLine
      (", ".intercalate (f.params.map fun p => p.name ++ ": " ++ p.type.text)) := by
    apply oneLine_intercalate comma
    simp only [List.forall_mem_map, oneLine_append]
    exact fun p hp => ⟨⟨(params p hp).1, by decide⟩, (params p hp).2⟩
  have results : OneLine (if f.returns.isEmpty then "" else
      " -> " ++ ", ".intercalate (f.returns.map fun r => r.type.text)) := by
    split
    · decide
    · refine oneLine_append.mpr ⟨by decide, oneLine_intercalate comma ?_⟩
      exact List.forall_mem_map.mpr returns
  have marks : ∀ (b : Bool) (mark : String), OneLine mark → OneLine (if b then mark else "") := by
    intro b mark h
    cases b with
    | false => exact (by decide : OneLine "")
    | true => exact h
  simp only [FunctionDoc.outline, oneLine_append]
  exact ⟨⟨⟨⟨⟨⟨name, by decide⟩, inside⟩, by decide⟩, results⟩, marks _ _ (by decide)⟩,
    marks _ _ (by decide)⟩

theorem ClassDoc.oneLine_outline {c : ClassDoc} (name : OneLine c.name)
    (parent : ∀ p ∈ c.parent, OneLine p) : OneLine c.outline := by
  have parent : OneLine (c.parent.elim "" (" : " ++ ·)) := by
    cases eq : c.parent with
    | none => decide
    | some p => exact oneLine_append.mpr ⟨by decide, parent p eq⟩
  have mark : OneLine (if c.isOpaque then " [opaque]" else "") := by
    cases c.isOpaque <;> decide
  simp only [ClassDoc.outline, oneLine_append]
  exact ⟨⟨⟨⟨⟨⟨by decide, name⟩, parent⟩, by decide⟩, oneLine_repr _⟩, by decide⟩, mark⟩

theorem AliasDoc.oneLine_outline {a : AliasDoc} (name : OneLine a.name)
    (values : ∀ v ∈ a.values, OneLine v.value) : OneLine a.outline := by
  simp only [AliasDoc.outline, oneLine_append]
  refine ⟨⟨⟨by decide, name⟩, by decide⟩, oneLine_intercalate (by decide) ?_⟩
  simp only [List.forall_mem_map, oneLine_append]
  exact fun v hv => ⟨⟨by decide, values v hv⟩, by decide⟩

/-- What a report shows of a file: the outlines, and the messages of its failures. -/
def FileDoc.shownTexts (file : FileDoc) : List String :=
  file.functions.map FunctionDoc.outline ++ file.classes.map ClassDoc.outline ++
    file.aliases.map AliasDoc.outline ++ file.failures.map BlockFailure.message

namespace Comment
open LuaType (oneLine_text_of_read oneLine_ofPlace)
open LineMismatch (atLine)

variable {limit index : Nat} {line text next cs rest : List Char}

/-! ## Functions -/

/-- The texts of a clause that the outline of its function shows. -/
def Clause.shownTexts : Clause → List String
  | .param p => [p.name, p.type.text]
  | .returns r => [r.type.text]
  | _ => []

theorem parameter_oneLine {nm : Reader String} {Fit : String → Prop}
    (names : LuaType.ReadsNames nm Fit) {p : Param} (h : parameter limit nm cs = .ok p)
    (line : '\n' ∉ cs) : OneLine p.name ∧ OneLine p.type.text := by
  simp only [parameter, bind_eq_ok_iff] at h
  obtain ⟨⟨name, rest⟩, hn, ⟨t, _⟩, ht, h⟩ := h
  cases h
  have front : '\n' ∉ dropBlanks cs := not_mem_of_suffix line (List.dropWhile_suffix isBlank)
  rw [(names.fit hn).2, List.mem_append, not_or] at front
  obtain ⟨r, split, -⟩ := spans_questionMark rest
  have behind : '\n' ∉ (questionMark rest).2 := not_mem_of_suffix front.2 ⟨r, split.symm⟩
  exact ⟨front.1, oneLine_ofPlace (oneLine_text_of_read ht behind) _⟩

theorem ReadFrom.oneLine {t : TagLine} {c : Clause} (h : ReadFrom limit t c)
    (inside : '\n' ∉ t.text) : ∀ s ∈ c.shownTexts, OneLine s := by
  cases h with
  | param _ itself =>
    simpa [Clause.shownTexts] using parameter_oneLine LuaType.readsNames_paramName itself inside
  | returns _ read => simpa [Clause.shownTexts] using oneLine_text_of_read read inside
  | _ => simp [Clause.shownTexts]

theorem bodies_oneLine {lines : List String} (h : ∀ line ∈ lines, OneLine line) :
    ∀ line ∈ lines.map body, '\n' ∉ line := by
  rw [List.forall_mem_map]
  intro line mem
  have part : body line <:+ line.toList := by
    rw [body]
    unfold afterMarker?
    split
    · next rest eq =>
      rw [eq, Option.getD_some]
      exact List.suffix_append ['-', '-', '-'] rest
    · exact List.suffix_refl _
  exact not_mem_of_suffix (h line mem) part

theorem functionBlock_oneLine {name : String} {lines : List String} {f : FunctionDoc}
    (h : functionBlockWithin limit name lines = .ok f) (hn : OneLine name)
    (hl : ∀ line ∈ lines, OneLine line) : OneLine f.outline := by
  obtain ⟨summary, found, rfl, read⟩ := functionBlock_readFrom h
  have shown : ∀ c ∈ found, ∀ s ∈ c.shownTexts, OneLine s := by
    intro c hc
    obtain ⟨t, ht, source⟩ := exists_left_of_forall₂ read c hc
    obtain ⟨line, mem, part⟩ := exists_suffix_of_mem_tagLines ht
    exact source.oneLine (not_mem_of_suffix (bodies_oneLine hl line mem) part)
  apply FunctionDoc.oneLine_outline hn
  · intro p hp
    obtain ⟨c, hc, eq⟩ := List.mem_filterMap.mp hp
    obtain rfl := Clause.param?_eq_some_iff.mp eq
    simpa [Clause.shownTexts] using shown _ hc
  · intro r hr
    obtain ⟨c, hc, eq⟩ := List.mem_filterMap.mp hr
    obtain rfl := Clause.return?_eq_some_iff.mp eq
    simpa [Clause.shownTexts] using shown _ hc

theorem literal?_suffix {lit : String} (h : literal? lit cs = some rest) : rest <:+ cs :=
  ⟨lit.toList, List.isPrefixOf?_eq_some_iff_append_eq.mp h⟩

/-- The name of a function is a part of the line that declares it. -/
theorem declaredName?_oneLine {line name : String} (h : declaredName? line = some name)
    (hl : OneLine line) : OneLine name := by
  have before : ∀ (c : Char) (kind : Char → Bool) (rest : List Char), '\n' ∉ rest →
      nameBefore c kind rest = some name → OneLine name := by
    intro c kind rest inside h
    rw [nameBefore] at h
    split at h
    · obtain rfl := Option.some.inj h
      exact oneLine_ofList.mpr fun mem => inside ((List.takeWhile_prefix kind).subset mem)
    · cases h
  rw [declaredName?, Option.or_eq_some_iff] at h
  rcases h with h | ⟨-, h⟩
  · obtain ⟨rest, taken, h⟩ := Option.bind_eq_some_iff.mp h
    exact before _ _ rest (not_mem_of_suffix hl (literal?_suffix taken)) h
  · obtain ⟨rest, taken, h⟩ := Option.bind_eq_some_iff.mp h
    split at h
    · exact before _ _ rest (not_mem_of_suffix hl (literal?_suffix taken)) h
    · cases h

/-! ## Classes and aliases -/

theorem parentClass_oneLine {parent : Option String} (h : parentClass cs = .ok (parent, rest)) :
    ∀ p ∈ parent, OneLine p := by
  rw [parentClass] at h
  split at h
  · cases h
    simp
  · dsimp only at h
    split at h
    · cases h
    · cases h
      rintro _ ⟨rfl⟩
      exact oneLine_ofList.mpr (not_mem_takeWhile (by decide))

/-- White space ends the names in a header, so they need no line to be on one. -/
theorem header_oneLine {h : Header} (read : header text = .ok h) :
    OneLine h.name ∧ ∀ p ∈ h.parent, OneLine p := by
  simp only [header] at read
  split at read
  all_goals
    split at read
    · cases read
    · simp only [bind_eq_ok_iff] at read
      obtain ⟨⟨parent, rest⟩, hp, -, -, read⟩ := read
      cases read
      exact ⟨oneLine_ofList.mpr (not_mem_takeWhile (by decide)), parentClass_oneLine hp⟩

theorem classBlock_oneLine {lines : List String} {c : ClassDoc}
    (h : classBlockWithin limit lines = .ok c) : OneLine c.outline := by
  simp only [classBlockWithin] at h
  split at h
  · simp only [bind_eq_ok_iff] at h
    obtain ⟨head, read, ⟨_, fields⟩, -, h⟩ := h
    split at h
    · simp [atLine, Except.mapError] at h
    · cases h
      obtain ⟨name, parent⟩ := header_oneLine (atLine_eq_ok_iff.mp read)
      exact ClassDoc.oneLine_outline name parent
  · simp [atLine, Except.mapError] at h

theorem aliasValue?_oneLine {v : Choice} (h : aliasValue? cs = some v) (line : '\n' ∉ cs) :
    OneLine v.value := by
  simp only [aliasValue?, Option.bind_eq_bind, Option.bind_eq_some_iff] at h
  obtain ⟨rest, taken, h⟩ := h
  have inside : '\n' ∉ rest := not_mem_of_suffix line (literal?_suffix taken)
  split at h
  · cases h
  · split at h
    · cases h
    · simp only [Option.bind_eq_some_iff] at h
      obtain ⟨desc, -, h⟩ := h
      cases h
      exact oneLine_ofList.mpr fun mem => inside ((List.takeWhile_prefix _).subset mem)

theorem aliasBlock?_oneLine {lines : List String} {a : AliasDoc} (h : aliasBlock? lines = some a)
    (hl : ∀ line ∈ lines, OneLine line) : OneLine a.outline := by
  simp only [aliasBlock?, Option.bind_eq_bind, Option.bind_eq_some_iff] at h
  obtain ⟨⟨line, below⟩, header, ⟨tag, text⟩, -, values, read, h⟩ := h
  obtain ⟨_, -, eq⟩ := Option.map_eq_some_iff.mp header
  obtain ⟨-, rfl⟩ := Prod.mk.inj eq
  split at h
  · cases h
  · cases h
    have name : '\n' ∉ wordPart (trimStart text) := not_mem_takeWhile (by decide)
    have shown : ∀ v ∈ values, OneLine v.value := by
      intro v hv
      obtain ⟨row, hr, found⟩ := exists_left_of_forall₂ (mapM_eq_some_iff.mp read).flip v hv
      have mem := (List.dropWhile_suffix _).subset (List.mem_of_mem_drop (List.mem_filter.mp hr).1)
      exact aliasValue?_oneLine found (not_mem_trimEnd (bodies_oneLine hl row mem))
    exact AliasDoc.oneLine_outline (oneLine_ofList.mpr name) shown

/-! ## Files -/

/-- What a report shows of an outcome: an outline or a message. -/
def Outcome.shownText? : Outcome → Option String
  | .functionDoc f => some f.outline
  | .classDoc c => some c.outline
  | .aliasDoc a => some a.outline
  | .failed f => some f.message
  | .omitted _ _ => none

theorem Block.outcome_oneLine (b : Block) (lines : ∀ line ∈ b.lines, OneLine line)
    (next : ∀ line ∈ b.next, OneLine line) : ∀ s ∈ b.outcome.shownText?, OneLine s := by
  have message : ∀ (subject : Subject) (e : LineMismatch), e.Legible →
      (∀ name, subject = .functionNamed name → OneLine name) →
      OneLine (b.failure subject e).message := by
    intro subject e legible name
    have told : OneLine e.error.message := legible
    cases subject with
    | functionNamed n =>
      simp only [Block.failure, BlockFailure.message, oneLine_append]
      exact ⟨⟨⟨by decide, name n rfl⟩, by decide⟩, told⟩
    | someClass =>
      simp only [Block.failure, BlockFailure.message, oneLine_append]
      exact ⟨by decide, told⟩
  simp only [Block.outcome]
  split
  · next name purpose =>
    obtain ⟨line, hn, declared⟩ := next_of_functionNamed purpose
    have name : OneLine name := declaredName?_oneLine declared (next line hn)
    split
    · next f read =>
      have outline := functionBlock_oneLine read name lines
      rintro s ⟨rfl⟩
      exact outline
    · next e failed =>
      rintro s ⟨rfl⟩
      refine message _ e (functionBlock_legible _ _ e failed) ?_
      rintro n ⟨rfl⟩
      exact name
  · split
    · next c read =>
      rintro s ⟨rfl⟩
      exact classBlock_oneLine read
    · next e failed =>
      rintro s ⟨rfl⟩
      refine message _ e (classBlock_legible _ e failed) ?_
      intro n named
      cases named
  · split
    · next a read =>
      rintro s ⟨rfl⟩
      exact aliasBlock?_oneLine read lines
    · simp [Outcome.shownText?]
  · split <;> simp [Outcome.shownText?]

theorem oneLine_of_mem_sourceLines {source : List Char} {line : String}
    (h : line ∈ sourceLines source) : OneLine line := by
  obtain ⟨cs, hcs, rfl⟩ := List.mem_map.mp h
  exact oneLine_ofList.mpr (not_mem_lines cs hcs)

theorem outcomes_oneLine {source : List Char} {o : Outcome}
    (h : o ∈ outcomes (sourceLines source)) : ∀ s ∈ o.shownText?, OneLine s := by
  obtain ⟨b, hb, rfl⟩ := List.mem_map.mp h
  obtain ⟨above, below, split, -, between⟩ := mem_blocks_iff.mp hb
  have all : ∀ line ∈ above ++ b.lines ++ below, OneLine line :=
    fun line hl => oneLine_of_mem_sourceLines (split ▸ hl)
  apply b.outcome_oneLine
  · intro line hl
    exact all line (by simp [hl])
  · intro line hl
    rw [between.next] at hl
    exact all line (by simp [List.mem_of_head? hl])

end Comment
open Comment

/-- Whatever a source holds, each text that a report shows of it is on one line. -/
theorem shownTexts_oneLine (source : List Char) :
    ∀ s ∈ (fileOfText source).shownTexts, OneLine s := by
  have listed {α : Type} (part : Outcome → Option α) (text : α → String)
      (same : ∀ o x, part o = some x → o.shownText? = some (text x)) :
      ∀ s ∈ ((outcomes (sourceLines source)).filterMap part).map text, OneLine s := by
    simp only [List.forall_mem_map, List.mem_filterMap]
    rintro x ⟨o, ho, found⟩
    exact outcomes_oneLine ho (text x) (same o x found)
  simp only [FileDoc.shownTexts, List.mem_append]
  rintro s (((hs | hs) | hs) | hs)
  · refine listed Outcome.function? _ ?_ s hs
    rintro (_ | _ | _ | _ | _) _ ⟨rfl⟩
    rfl
  · refine listed Outcome.class? _ ?_ s hs
    rintro (_ | _ | _ | _ | _) _ ⟨rfl⟩
    rfl
  · refine listed Outcome.alias? _ ?_ s hs
    rintro (_ | _ | _ | _ | _) _ ⟨rfl⟩
    rfl
  · refine listed Outcome.failure? _ ?_ s hs
    rintro (_ | _ | _ | _ | _) _ ⟨rfl⟩
    rfl

end Annodoc
