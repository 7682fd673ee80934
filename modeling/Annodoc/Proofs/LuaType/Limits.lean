import Annodoc.Proofs.LuaType.OffsetTypes

/-!
# Limits on the nesting of types

A lower limit refuses types and does nothing else. A reading under it either is the reading under a
higher one, step by step, or it fails and says that a shallower type was wanted. What is too deep in
one place of a type is never made up for in another.
-/

namespace Annodoc
open Text Grammar

/-- The two readings are the same, unless the first one fails in a way that has the property. -/
inductive SameUnless {ε α : Type} (P : ε → Prop) : Except ε α → Except ε α → Prop where
  | same (x : Except ε α) : SameUnless P x x
  | fails {e : ε} (y : Except ε α) : P e → SameUnless P (.error e) y

namespace SameUnless
variable {ε δ α β : Type} {P : ε → Prop} {Q : δ → Prop} {x y : Except ε α}

theorem bind {f g : α → Except ε β} (h : SameUnless P x y) (next : ∀ a, SameUnless P (f a) (g a)) :
    SameUnless P (x >>= f) (y >>= g) := by
  cases h with
  | same =>
    cases x with
    | error e => exact .same (.error e)
    | ok a => exact next a
  | fails _ refused => exact .fails _ refused

theorem mapError {f : ε → δ} (h : SameUnless P x y) (keeps : ∀ e, P e → Q (f e)) :
    SameUnless Q (x.mapError f) (y.mapError f) := by
  cases h with
  | same => exact .same _
  | fails _ refused => exact .fails _ (keeps _ refused)

theorem eq_or (h : SameUnless P x y) : x = y ∨ ∃ e, x = .error e ∧ P e := by
  cases h with
  | same => exact .inl rfl
  | fails _ refused => exact .inr ⟨_, rfl, refused⟩

/-- What is read in spite of the first reading's ways to fail is read by both. -/
theorem eq_ok {a : α} (h : SameUnless P x y) (read : x = .ok a) : y = .ok a := by
  cases h with
  | same => exact read
  | fails => cases read

end SameUnless

/-- The stop is due to the limit. -/
def Stop.TooDeep (s : Stop) : Prop := s.expected = .shallowerType

def Mismatch.TooDeep (e : Mismatch) : Prop := e.expected = .shallowerType

def LineMismatch.TooDeep (e : LineMismatch) : Prop := e.error.TooDeep

/-- A reader that reads what another one reads, or refuses it as too deep. -/
def Refuses {α : Type} (reader higher : Reader α) : Prop :=
  ∀ cs, SameUnless Stop.TooDeep (reader cs) (higher cs)

theorem Refuses.self {α : Type} (reader : Reader α) : Refuses reader reader :=
  fun cs => .same (reader cs)

/-! ## Items -/

namespace Grammar
variable {α : Type} {sep : Char} {item higher : Reader α}

theorem moreItems_refuses (h : Refuses item higher) (rounds : Nat) :
    Refuses (moreItems sep item rounds) (moreItems sep higher rounds) := by
  induction rounds with
  | zero => exact .self _
  | succ rounds ih =>
    intro cs
    rw [moreItems, moreItems]
    cases mark? sep cs with
    | none => exact .same _
    | some rest =>
      apply (h rest).bind
      rintro ⟨x, rest⟩
      apply (ih rest).bind
      rintro ⟨xs, rest⟩
      exact .same _

theorem items_refuses (h : Refuses item higher) :
    Refuses (items sep item) (items sep higher) := by
  intro cs
  apply (h cs).bind
  rintro ⟨x, rest⟩
  apply (moreItems_refuses h rest.length rest).bind
  rintro ⟨xs, rest⟩
  exact .same _

end Grammar

namespace LuaType
variable {nested higher : Reader LuaType} {n m : Nat}

/-! ## Forms of a type -/

theorem slot_refuses (h : Refuses nested higher) (name : Reader String) :
    Refuses (slot nested name) (slot higher name) := by
  intro cs
  apply (Refuses.self name _).bind
  rintro ⟨name, rest⟩
  apply (SameUnless.same (mark ':' (questionMark rest).2)).bind
  intro rest
  apply (h rest).bind
  rintro ⟨type, rest⟩
  exact .same _

theorem mapTail_refuses (h : Refuses nested higher) : Refuses (mapTail nested) (mapTail higher) := by
  intro cs
  apply (SameUnless.same (mark '<' cs)).bind
  intro rest
  apply (h rest).bind
  rintro ⟨key, rest⟩
  apply (SameUnless.same (mark ',' rest)).bind
  intro rest
  apply (h rest).bind
  rintro ⟨value, rest⟩
  exact .same _

theorem tableTail_refuses (h : Refuses nested higher) :
    Refuses (tableTail nested) (tableTail higher) := by
  intro cs
  apply (items_refuses (slot_refuses h Grammar.name) cs).bind
  rintro ⟨slots, rest⟩
  exact .same _

theorem params_refuses (h : Refuses nested higher) : Refuses (params nested) (params higher) := by
  intro cs
  rw [params, params]
  cases mark? ')' cs with
  | some rest => exact .same _
  | none => exact items_refuses (slot_refuses h paramName) cs

theorem functionTail_refuses (h : Refuses nested higher) :
    Refuses (functionTail nested) (functionTail higher) := by
  intro cs
  apply (SameUnless.same (mark '(' cs)).bind
  intro rest
  apply (params_refuses h rest).bind
  rintro ⟨ps, rest⟩
  apply (SameUnless.same (mark ')' rest)).bind
  intro rest
  dsimp only
  cases mark? ':' rest with
  | none => exact .same _
  | some rest =>
    apply (h rest).bind
    rintro ⟨result, rest⟩
    exact .same _

/-- A map that is too deep is refused with its keyword, so that the keyword does not stand in for
it. A map that fails in another way fails so under both limits. -/
theorem keywordTail_refuses (h : Refuses nested higher) (k : Keyword) :
    Refuses (keywordTail nested k) (keywordTail higher k) := by
  intro cs
  rw [keywordTail, keywordTail]
  cases listTail? k cs with
  | some found => exact .same _
  | none =>
    by_cases table : k = .table
    · have tail := mapTail_refuses h cs
      simp only [if_pos table]
      generalize mapTail nested cs = x at tail ⊢
      cases tail with
      | same => exact .same _
      | @fails stop _ deep =>
        have refused : stop.expected = .shallowerType := deep
        simp only [if_pos refused]
        exact .fails _ deep
    · simp only [if_neg table]
      exact .same _

theorem word_refuses (h : Refuses nested higher) : Refuses (word nested) (word higher) := by
  intro cs
  simp only [word]
  split
  · split
    · exact keywordTail_refuses h _ _
    · split
      · exact functionTail_refuses h _
      · exact .same _
  · exact .same _

theorem single_refuses (h : Refuses nested higher) : Refuses (single nested) (single higher) := by
  intro cs
  simp only [single]
  split
  · exact tableTail_refuses h _
  · exact .same _
  · exact .same _
  · exact word_refuses h _

/-! ## Types -/

/-- Every level of nesting is read under a lower limit as the same level under a higher one. -/
theorem readWithin_refuses (le : n ≤ m) : Refuses (readWithin n) (readWithin m) := by
  induction n generalizing m with
  | zero => exact fun cs => .fails _ rfl
  | succ n ih =>
    obtain ⟨m, rfl⟩ : ∃ k, m = k + 1 := ⟨m - 1, by omega⟩
    intro cs
    apply (items_refuses (single_refuses (ih (Nat.le_of_succ_le_succ le))) cs).bind
    rintro ⟨members, rest⟩
    exact .same _

theorem readWholeWithin_refuses (le : n ≤ m) (cs : List Char) :
    SameUnless Stop.TooDeep (readWholeWithin n cs) (readWholeWithin m cs) := by
  apply (readWithin_refuses le cs).bind
  rintro ⟨type, rest⟩
  exact .same _

/-- A whole text as a type, with any limit on its nesting. -/
def parseWithin (limit : Nat) (text : String) : Except Mismatch LuaType :=
  (readWholeWithin limit text.toList).mapError (·.inText text.toList)

theorem parseWithin_refuses (le : n ≤ m) (text : String) :
    SameUnless Mismatch.TooDeep (parseWithin n text) (parseWithin m text) :=
  (readWholeWithin_refuses le text.toList).mapError fun _ deep => deep

/-- At a boundary between two characters the readings are those of the text from there, and at other
places there is none. -/
theorem parseAtWithin?_refuses (le : n ≤ m) (text : List Char) (position : Nat) :
    parseAtWithin? n text position = parseAtWithin? m text position ∨
      ∃ e, parseAtWithin? n text position = some (.error e) ∧ e.TooDeep := by
  rw [parseAtWithin?, parseAtWithin?]
  cases afterBytes? position text with
  | none => exact .inl rfl
  | some rest =>
    have agree := readWithin_refuses le rest
    simp only [Option.map_some]
    generalize readWithin n rest = x at agree ⊢
    cases agree with
    | same => exact .inl rfl
    | @fails stop _ deep => exact .inr ⟨stop.inText text, rfl, deep⟩

/-- More room keeps what is read. -/
theorem readWithin_mono (le : n ≤ m) {cs : List Char} {found : LuaType × List Char}
    (h : readWithin n cs = .ok found) : readWithin m cs = .ok found :=
  (readWithin_refuses le cs).eq_ok h

end LuaType
end Annodoc
