import Annodoc.Comment.Outcome
import Annodoc.Proofs.Grammar.Token
import Annodoc.Proofs.Text.OneLine

/-!
# Messages of failures

No reader wants a line feed, so what was wanted is told on one line; what was found is quoted. So
every message is on one line, whatever the text was that could not be read.
-/

namespace Annodoc
open Grammar Text

/-- Whatever the reading fails with has the property. -/
def FailsWith {ε α : Type} (P : ε → Prop) (reading : Except ε α) : Prop :=
  ∀ e, reading = .error e → P e

namespace FailsWith

variable {ε δ α β : Type} {P : ε → Prop} {x : Except ε α}

theorem ok (a : α) : FailsWith P (.ok a) := nofun

theorem error {e : ε} (h : P e) : FailsWith P (.error e : Except ε α) := by
  rintro _ ⟨⟩
  exact h

theorem bind {f : α → Except ε β} (hx : FailsWith P x) (hf : ∀ a, FailsWith P (f a)) :
    FailsWith P (x >>= f) := by
  intro e h
  rcases bind_eq_error_iff.mp h with first | ⟨a, -, later⟩
  · exact hx e first
  · exact hf a e later

end FailsWith

/-- What was wanted is told on one line. -/
def Stop.Legible (s : Stop) : Prop := OneLine s.expected.text

/-- The message is on one line. -/
def LineMismatch.Legible (e : LineMismatch) : Prop := OneLine e.error.message

theorem FailsWith.stop {α : Type} {e : Expectation} (h : OneLine e.text) (rest : List Char) :
    FailsWith Stop.Legible (.error ⟨e, rest⟩ : Except Stop α) := .error h

theorem Stop.Legible.inText {s : Stop} (h : s.Legible) (text : List Char) :
    OneLine (s.inText text).message := by
  have wanted : OneLine s.expected.text := h
  have found : OneLine (Found.ofRest s.rest).text := by
    rw [Found.ofRest]
    split
    · decide
    · exact oneLine_quoted _
  have words : OneLine "expected " ∧ OneLine " at offset " ∧ OneLine ", found " := by decide
  simp [Mismatch.message, Stop.inText, wanted, found, words]

theorem FailsWith.atLine {α : Type} {reading : Except Stop α} (h : FailsWith Stop.Legible reading)
    (index : Nat) (line : List Char) :
    FailsWith LineMismatch.Legible (LineMismatch.atLine index line reading) := by
  intro e eq
  obtain ⟨s, stopped, rfl⟩ := mapError_eq_error_iff.mp eq
  exact (h s stopped).inText line

/-- A reader that fails legibly on every text. -/
def LegibleReader {α : Type} (reader : Reader α) : Prop :=
  ∀ cs, FailsWith Stop.Legible (reader cs)

/-! ## Tokens -/

namespace Grammar

variable {α : Type} {c : Char} {item : Reader α}

theorem mark_legible (h : OneLine (Expectation.token c).text) (cs : List Char) :
    FailsWith Stop.Legible (mark c cs) := by
  rw [mark]
  split
  · exact .ok _
  · exact .stop h _

theorem name_legible : LegibleReader name := by
  intro cs
  unfold name
  split
  · split
    · exact .ok _
    · exact .stop (by decide) _
  · exact .stop (by decide) _

theorem nothingMore_legible (cs : List Char) : FailsWith Stop.Legible (nothingMore cs) := by
  rw [nothingMore]
  split
  · exact .ok _
  · exact .stop (by decide) _

theorem moreItems_legible (h : LegibleReader item) (rounds : Nat) :
    LegibleReader (moreItems c item rounds) := by
  induction rounds with
  | zero => exact fun _ => .ok _
  | succ rounds ih =>
    intro cs
    rw [moreItems]
    split
    · exact .ok _
    · next rest _ =>
      apply (h rest).bind
      rintro ⟨x, rest⟩
      apply (ih rest).bind
      rintro ⟨xs, rest⟩
      exact .ok _

theorem items_legible (h : LegibleReader item) : LegibleReader (items c item) := by
  intro cs
  apply (h cs).bind
  rintro ⟨x, rest⟩
  apply (moreItems_legible h rest.length rest).bind
  rintro ⟨xs, rest⟩
  exact .ok _

end Grammar

/-! ## Types -/

namespace LuaType

variable {nested : Reader LuaType} {nm : Reader String}

theorem slot_legible (hn : LegibleReader nested) (names : LegibleReader nm) :
    LegibleReader (slot nested nm) := by
  intro cs
  apply (names _).bind
  rintro ⟨name, rest⟩
  apply (mark_legible (by decide) _).bind
  intro rest
  apply (hn rest).bind
  rintro ⟨t, rest⟩
  exact .ok _

theorem paramName_legible : LegibleReader paramName := by
  intro cs
  unfold paramName
  split
  · exact .ok _
  · exact name_legible cs

theorem mapTail_legible (hn : LegibleReader nested) : LegibleReader (mapTail nested) := by
  intro cs
  apply (mark_legible (by decide) cs).bind
  intro rest
  apply (hn rest).bind
  rintro ⟨key, rest⟩
  apply (mark_legible (by decide) rest).bind
  intro rest
  apply (hn rest).bind
  rintro ⟨value, rest⟩
  exact (mark_legible (by decide) rest).bind fun _ => .ok _

theorem tableTail_legible (hn : LegibleReader nested) : LegibleReader (tableTail nested) := by
  intro cs
  apply (items_legible (slot_legible hn name_legible) cs).bind
  rintro ⟨slots, rest⟩
  exact (mark_legible (by decide) rest).bind fun _ => .ok _

theorem params_legible (hn : LegibleReader nested) : LegibleReader (params nested) := by
  intro cs
  rw [params]
  split
  · exact .ok _
  · exact items_legible (slot_legible hn paramName_legible) cs

theorem functionTail_legible (hn : LegibleReader nested) : LegibleReader (functionTail nested) := by
  intro cs
  apply (mark_legible (by decide) cs).bind
  intro rest
  apply (params_legible hn rest).bind
  rintro ⟨ps, rest⟩
  apply (mark_legible (by decide) rest).bind
  intro rest
  dsimp only
  split
  · exact .ok _
  · next rest _ =>
    apply (hn rest).bind
    rintro ⟨result, rest⟩
    exact .ok _

theorem keywordTail_legible (hn : LegibleReader nested) (k : Keyword) :
    LegibleReader (keywordTail nested k) := by
  intro cs
  rw [keywordTail]
  split
  · exact .ok _
  · split
    · split
      · exact .ok _
      · next stop failed =>
        split
        · exact .error (mapTail_legible hn cs stop failed)
        · exact .ok _
    · exact .ok _

theorem word_legible (hn : LegibleReader nested) : LegibleReader (word nested) := by
  intro cs
  rw [word]
  split
  · split
    · exact keywordTail_legible hn _ _
    · split
      · exact functionTail_legible hn _
      · split
        · exact .ok _
        · exact .stop (by decide) _
  · split
    · exact .stop (by decide) _
    · split <;> exact .ok _

theorem single_legible (hn : LegibleReader nested) : LegibleReader (single nested) := by
  intro cs
  have literal (found : Option (LuaType × List Char)) (rest : List Char) :
      FailsWith Stop.Legible (found.elim (.error ⟨.aType, rest⟩) .ok) := by
    cases found with
    | none => exact .stop (by decide) _
    | some found => exact .ok found
  rw [single]
  split
  · exact tableTail_legible hn _
  · exact literal _ _
  · exact literal _ _
  · exact word_legible hn _

/-- At every depth, a type that cannot be read is refused legibly. -/
theorem readWithin_legible (limit : Nat) : LegibleReader (readWithin limit) := by
  induction limit with
  | zero => exact fun cs => .stop (by decide) _
  | succ limit ih =>
    intro cs
    apply (items_legible (single_legible ih) cs).bind
    rintro ⟨members, rest⟩
    exact .ok _

end LuaType

/-! ## Blocks -/

namespace Comment
open LuaType (readWithin_legible paramName_legible)

variable {limit index : Nat} {line text next : List Char}

theorem parameter_legible {nm : Reader String} (names : LegibleReader nm) (cs : List Char) :
    FailsWith Stop.Legible (parameter limit nm cs) := by
  apply (names _).bind
  rintro ⟨name, rest⟩
  apply (readWithin_legible limit _).bind
  rintro ⟨t, rest⟩
  exact .ok _

theorem subparams_legible (lines : List (List Char)) :
    FailsWith LineMismatch.Legible (subparams limit index lines) := by
  induction lines generalizing index with
  | nil => exact .ok _
  | cons line lines ih =>
    apply ((parameter_legible name_legible line).atLine index line).bind
    intro p
    exact ih.bind fun ps => .ok _

theorem bodyText_legible (indented : List (List Char)) :
    FailsWith LineMismatch.Legible (bodyText index indented next) := by
  rw [bodyText]
  split
  · exact FailsWith.atLine (.stop (by decide) _) index next
  · exact .ok _

theorem clause_legible (tag : Tag) (indented : List (List Char)) :
    FailsWith LineMismatch.Legible (clause limit index line tag text indented next) := by
  have closed := (nothingMore_legible text).atLine index line
  cases tag with
  | param =>
    apply ((parameter_legible paramName_legible text).atLine index line).bind
    intro p
    exact (subparams_legible indented).bind fun subs => .ok _
  | returns =>
    apply ((readWithin_legible limit text).atLine index line).bind
    rintro ⟨t, rest⟩
    exact .ok _
  | privateMark | deprecatedMark => exact closed.bind fun _ => .ok _
  | sample | note =>
    apply closed.bind
    intro _
    exact (bodyText_legible indented).bind fun body => .ok _
  | _ => exact FailsWith.atLine (.stop (by decide) _) index line

theorem clauses_legible (block : List (List Char)) :
    FailsWith LineMismatch.Legible (clauses limit index block) := by
  fun_induction clauses limit index block with
  | case1 => exact .ok _
  | case2 index line rest empty ih => exact ih
  | case3 index line rest => exact FailsWith.atLine (.stop (by decide) _) index line
  | case4 index line rest inked tag text split indented ih =>
    apply (clause_legible tag indented).bind
    intro c
    exact ih.bind fun _ => .ok _

theorem functionBlock_legible (name : String) (lines : List String) :
    FailsWith LineMismatch.Legible (functionBlockWithin limit name lines) :=
  (clauses_legible _).bind fun _ => .ok _

theorem parentClass_legible (cs : List Char) : FailsWith Stop.Legible (parentClass cs) := by
  rw [parentClass]
  split
  · exact .ok _
  · dsimp only
    split
    · exact .stop (by decide) _
    · exact .ok _

theorem header_legible (cs : List Char) : FailsWith Stop.Legible (header cs) := by
  simp only [header]
  split
  all_goals
    split
    · exact .stop (by decide) _
    · apply (parentClass_legible _).bind
      rintro ⟨parent, rest⟩
      exact (nothingMore_legible rest).bind fun _ => .ok _

theorem keyedField_legible (cs : List Char) : FailsWith Stop.Legible (keyedField limit cs) := by
  apply (readWithin_legible limit cs).bind
  rintro ⟨key, rest⟩
  apply (mark_legible (by decide) rest).bind
  intro rest
  apply (readWithin_legible limit rest).bind
  rintro ⟨t, rest⟩
  exact .ok _

theorem namedField_legible (scope : Option Scope) (name : String) (cs : List Char) :
    FailsWith Stop.Legible (namedField limit scope name cs) := by
  apply (readWithin_legible limit _).bind
  rintro ⟨t, rest⟩
  exact .ok _

theorem fieldWithScope_legible (scope : Scope) (cs : List Char) :
    FailsWith Stop.Legible (fieldWithScope limit scope cs) := by
  apply (name_legible _).bind
  rintro ⟨name, rest⟩
  exact namedField_legible (some scope) name rest

theorem field_legible (cs : List Char) : FailsWith Stop.Legible (field limit cs) := by
  rw [field]
  split
  · exact keyedField_legible _
  · split
    · exact .stop (by decide) _
    · split
      · exact namedField_legible none _ _
      · split
        · exact .ok _
        · exact .ok _
        · next a b withScope unscoped =>
          apply FailsWith.error
          rw [laterStop]
          split
          · exact namedField_legible none _ _ _ unscoped
          · exact fieldWithScope_legible _ _ _ withScope

theorem members_legible (markAllowed : Bool) (lines : List (List Char)) :
    FailsWith LineMismatch.Legible (members limit index markAllowed lines) := by
  have misplaced {α : Type} (index : Nat) (line rest : List Char) :
      FailsWith LineMismatch.Legible
        (LineMismatch.atLine index line (.error ⟨.fieldTag, rest⟩ : Except Stop α)) :=
    FailsWith.atLine (.stop (by decide) _) index line
  induction lines generalizing index markAllowed with
  | nil => exact .ok _
  | cons line lines ih =>
    rw [members]
    split
    · next text _ =>
      split
      · apply ((nothingMore_legible text).atLine index line).bind
        intro _
        exact (ih false).bind fun _ => .ok _
      · exact misplaced index line _
    · next text _ =>
      apply ((field_legible text).atLine index line).bind
      intro f
      exact (ih false).bind fun _ => .ok _
    · split
      · exact ih markAllowed
      · exact misplaced index line _
    · exact misplaced index line _

theorem classBlock_legible (lines : List String) :
    FailsWith LineMismatch.Legible (classBlockWithin limit lines) := by
  simp only [classBlockWithin]
  split
  · next text _ =>
    apply ((header_legible text).atLine _ _).bind
    intro h
    apply (members_legible true _).bind
    rintro ⟨isOpaque, fields⟩
    dsimp only
    split
    · exact FailsWith.atLine (.stop (by decide) _) _ _
    · exact .ok _
  · exact FailsWith.atLine (.stop (by decide) _) _ _

end Comment
end Annodoc
