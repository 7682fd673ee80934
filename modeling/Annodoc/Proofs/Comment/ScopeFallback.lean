import Annodoc.Proofs.Comment.Limits
import Annodoc.Proofs.Comment.StoredTypes
import Annodoc.Proofs.Comment.WrittenClass

/-!
# Fields under a limit

The word for a scope is also a name, and a keyword is one too. So a field with a scope whose name is a
keyword has a second reading, as a plain field of that keyword's type, which takes over where the type
of the first one is too deep. In no other case does a lower limit read another field.
-/

namespace Annodoc
open Grammar Text LuaType

namespace Comment
open LineMismatch (atLine)
variable {n m : Nat} {scope : Scope} {k : Keyword} {t : LuaType} {text cs rest b : List Char}

/-! ## What stands behind the name of a field -/

/-- Behind a name that has a type there is no other mark than that of an optional place. -/
theorem mark?_of_typed {found : LuaType × List Char} {c : Char}
    (h : readWithin m (questionMark rest).2 = .ok found) (hi : isIdent c = false)
    (hc : c ∉ ['\x7b', '\'', '"', '?']) : mark? c rest = none := by
  rw [questionMark] at h
  cases optional : mark? '?' rest with
  | some after =>
    refine mark?_eq_none_of_ne optional ?_
    rintro rfl
    exact hc (by decide)
  | none =>
    rw [optional] at h
    exact mark?_of_read h hi fun mem => hc (List.mem_append_left ['?'] mem)

theorem plain_of_typed {found : LuaType × List Char} (ends : IdentEnds rest)
    (h : readWithin m (questionMark rest).2 = .ok found) : Plain rest := by
  have front {c : Char} (hi : isIdent c = false) (hb : isBlank c = false)
      (hc : c ∉ ['\x7b', '\'', '"', '?']) : c ∉ rest.head? := by
    intro head
    obtain ⟨after, rfl⟩ := List.head?_eq_some_iff.mp head
    have absent := mark?_of_typed h hi hc
    rw [mark?, dropBlanks_cons hb] at absent
    simp at absent
  refine ⟨fun c head => ⟨ends c head, ?_, ?_⟩, mark?_of_typed h (by decide) (by decide),
    mark?_of_typed h (by decide) (by decide)⟩
  · rintro rfl
    exact front (by decide) (by decide) (by decide) head
  · rintro rfl
    exact front (by decide) (by decide) (by decide) head

/-- A keyword in front of such a text is a type of its own. -/
theorem readWithin_keyword (plain : Plain rest) (last : mark? '|' rest = none) (hb : Blanks b)
    (k : Keyword) : readWithin (n + 1) (b ++ (k.text.toList ++ rest)) = .ok (.keyword k, rest) := by
  have admissible : Admissible (n + 1) (.keyword k) := admissible_keyword k
  have read := readWithin_text admissible hb (plain.stops last admissible)
  rwa [LuaType.text] at read

/-- A name in front of such a text is a type only if it is a keyword. -/
theorem keyword_of_read {name : String} {found : LuaType × List Char} (hn : IsName name)
    (hb : Blanks b) (plain : Plain rest) (noCall : mark? '(' rest = none)
    (h : readWithin n (b ++ (name.toList ++ rest)) = .ok found) :
    ∃ k : Keyword, name = k.text := by
  cases n with
  | zero => cases h
  | succ n =>
    obtain ⟨⟨ms, _⟩, read, -⟩ := bind_eq_ok_iff.mp h
    obtain ⟨⟨u, after⟩, first, -⟩ := bind_eq_ok_iff.mp read
    have front : dropBlanks (b ++ (name.toList ++ rest)) = name.toList ++ rest :=
      dropBlanks_inked hb hn.1.exists_cons rest
    rw [single_of_word front hn.1.1 hn.1.2, word_undotted hn.1.2 plain.wordEnds,
      String.ofList_toList] at first
    cases keyword : Keyword.ofText? name with
    | some k => exact ⟨k, ofText?_eq_some_iff.mp keyword⟩
    | none =>
      rw [keyword, Option.elim_none] at first
      split at first
      · simp [functionTail, mark, noCall, bind, Except.bind] at first
      · split at first
        · next digits =>
          obtain ⟨c, w, hw⟩ := List.exists_cons_of_ne_nil hn.1.1
          have digit : c.isDigit = true := List.all_eq_true.mp digits.2 c (by simp [hw])
          rw [hn.2 c (by simp [hw])] at digit
          cases digit
        · cases first

/-! ## Fields -/

theorem keyedField_refuses (le : n ≤ m) (cs : List Char) :
    SameUnless Stop.TooDeep (keyedField n cs) (keyedField m cs) := by
  apply (readWithin_refuses le cs).bind
  rintro ⟨key, rest⟩
  apply (SameUnless.same (mark ']' rest)).bind
  intro rest
  apply (readWithin_refuses le rest).bind
  rintro ⟨type, rest⟩
  exact .same _

theorem namedField_refuses (le : n ≤ m) (scope : Option Scope) (name : String) (cs : List Char) :
    SameUnless Stop.TooDeep (namedField n scope name cs) (namedField m scope name cs) := by
  apply (readWithin_refuses le _).bind
  rintro ⟨type, rest⟩
  exact .same _

theorem fieldWithScope_refuses (le : n ≤ m) (scope : Scope) (cs : List Char) :
    SameUnless Stop.TooDeep (fieldWithScope n scope cs) (fieldWithScope m scope cs) := by
  apply (Refuses.self Grammar.name _).bind
  rintro ⟨name, rest⟩
  exact namedField_refuses le (some scope) name rest

theorem namedField_eq_ok_iff {limit : Nat} {scope : Option Scope} {name : String} {f : Field} :
    namedField limit scope name cs = .ok f ↔ ∃ t after,
      readWithin limit (questionMark cs).2 = .ok (t, after) ∧
        ⟨.named name scope, t.ofPlace (questionMark cs).1, description after⟩ = f := by
  simp only [namedField, bind_eq_ok_iff, Prod.exists, Except.ok.injEq]

theorem namedField_eq_error_iff {limit : Nat} {scope : Option Scope} {name : String} {s : Stop} :
    namedField limit scope name cs = .error s ↔
      readWithin limit (questionMark cs).2 = .error s := by
  simp only [namedField, bind_eq_error_iff, reduceCtorEq, and_false, exists_false, or_false]

/-- A text that the higher limit reads as a field with a scope and the lower one as a plain field: the
word for the scope, a keyword as the name, and a type that only the higher limit admits. `rest` is
what stands behind the name. -/
structure Shadowed (n m : Nat) (scope : Scope) (k : Keyword) (text rest : List Char) : Prop where
  spelled : ∃ b, b ≠ [] ∧ Blanks b ∧
    dropBlanks text = scope.text.toList ++ (b ++ (k.text.toList ++ rest))
  named : IdentEnds rest
  higher : ∃ found, readWithin m (questionMark rest).2 = .ok found
  lower : ∃ s, readWithin n (questionMark rest).2 = .error s

/-- In front of a name there is no mark of an optional place. -/
theorem questionMark_of_name {name : String} (hn : IsName name)
    (h : dropBlanks cs = name.toList ++ rest) : questionMark cs = (false, cs) := by
  have absent : mark? '?' cs = none := by
    obtain ⟨b, hb, split⟩ := exists_blanks cs
    rw [split, mark?_append hb, h]
    exact mark?_word hn.1 (by decide) rest
  rw [questionMark, absent]

/-- Of the reading with the scope and the plain one, the first that succeeds. -/
def withScopeFirst (first second : Except Stop Field) : Except Stop Field :=
  match first, second with
  | .ok field, _ => .ok field
  | .error _, .ok field => .ok field
  | .error a, .error b => .error (laterStop a b)

/-- A text that begins with the word for a scope has two readings. -/
theorem field_of_scope (limit : Nat) {after : List Char}
    (h : Grammar.name (dropBlanks text) = .ok (scope.text, after)) :
    field limit text =
      withScopeFirst (fieldWithScope limit scope after) (namedField limit none scope.text after) := by
  rw [field]
  split
  · next rest bracket =>
    rw [bracket] at h
    cases h
  · simp only [h, scopeOfText?_text]
    rfl

theorem shadowed_of_read {after : List Char} {f g : Field} {s : Stop}
    (word : Grammar.name (dropBlanks text) = .ok (scope.text, after))
    (deep : fieldWithScope n scope after = .error s)
    (plain : namedField n none scope.text after = .ok f)
    (wide : fieldWithScope m scope after = .ok g) :
    ∃ k rest, Shadowed n m scope k text rest := by
  obtain ⟨⟨name, rest⟩, named, typed⟩ := bind_eq_ok_iff.mp wide
  obtain ⟨t, left, higher, -⟩ := namedField_eq_ok_iff.mp typed
  obtain ⟨hn, front, ends⟩ := name_eq_ok_iff.mp named
  obtain ⟨-, begins, wordEnds⟩ := name_eq_ok_iff.mp word
  obtain ⟨b, hb, split⟩ := exists_blanks after
  rw [front] at split
  -- The plain reading takes the second word for a type, so this word is a keyword.
  obtain ⟨k, rfl⟩ : ∃ k : Keyword, name = k.text := by
    obtain ⟨u, left', read, -⟩ := namedField_eq_ok_iff.mp plain
    rw [questionMark_of_name hn front, split] at read
    exact keyword_of_read hn hb (plain_of_typed ends higher)
      (mark?_of_typed higher (by decide) (by decide)) read
  have lower : ∃ s, readWithin n (questionMark rest).2 = .error s := by
    rw [fieldWithScope, named] at deep
    exact ⟨s, namedField_eq_error_iff.mp deep⟩
  refine ⟨k, rest, ⟨b, ?_, hb, by rw [begins, split]⟩, ends, ⟨(t, left), higher⟩, lower⟩
  rintro rfl
  obtain ⟨c, w, hw, ident⟩ := hn.1.exists_ident
  rw [wordEnds c (by simp [split, hw])] at ident
  cases ident

/-- Both readings of a text with a scope, side by side. -/
theorem field_of_scope_refuses (le : n ≤ m) {after : List Char}
    (word : Grammar.name (dropBlanks text) = .ok (scope.text, after)) :
    (field n text = field m text ∨ ∃ s, field n text = .error s) ∨
      ∃ k rest, Shadowed n m scope k text rest := by
  have first := fieldWithScope_refuses le scope after
  have second := namedField_refuses le none scope.text after
  rw [field_of_scope n word, field_of_scope m word]
  cases deep : fieldWithScope n scope after with
  | ok f =>
    rw [first.eq_ok deep]
    exact .inl (.inl rfl)
  | error a =>
    cases plain : namedField n none scope.text after with
    | error b => exact .inl (.inr ⟨_, rfl⟩)
    | ok f =>
      rw [second.eq_ok plain]
      cases wide : fieldWithScope m scope after with
      | error c => exact .inl (.inl rfl)
      | ok g => exact .inr (shadowed_of_read word deep plain wide)

/-- Under the lower limit a field is what it is under the higher one, or it fails, or a plain one
stands in for it. -/
theorem field_refuses (le : n ≤ m) (text : List Char) :
    (field n text = field m text ∨ ∃ s, field n text = .error s) ∨
      ∃ scope k rest, Shadowed n m scope k text rest := by
  have refuses {x y : Except Stop Field} (h : SameUnless Stop.TooDeep x y) :
      x = y ∨ ∃ s, x = .error s := h.eq_or.imp_right fun ⟨s, failed, _⟩ => ⟨s, failed⟩
  by_cases withScope : ∃ scope after, Grammar.name (dropBlanks text) = .ok (Scope.text scope, after)
  · obtain ⟨scope, after, word⟩ := withScope
    exact (field_of_scope_refuses le word).imp_right fun shadowed => ⟨scope, shadowed⟩
  · left
    simp only [field]
    split
    · exact refuses (keyedField_refuses le _)
    · split
      · exact .inl rfl
      · next word after read =>
        cases isScope : Scope.ofText? word with
        | none => exact refuses (namedField_refuses le none word after)
        | some scope =>
          have same : scope.text = word := by simpa using List.find?_some isScope
          exact absurd ⟨scope, after, same ▸ read⟩ withScope

namespace Shadowed

theorem word (h : Shadowed n m scope k text rest) : ∃ b, Blanks b ∧
    Grammar.name (dropBlanks text) = .ok (scope.text, b ++ (k.text.toList ++ rest)) := by
  obtain ⟨b, hne, hb, spelled⟩ := h.spelled
  obtain ⟨c, w, rfl⟩ := List.exists_cons_of_ne_nil hne
  have ends : IdentEnds (c :: w ++ (k.text.toList ++ rest)) := by
    rintro d ⟨⟩
    exact isIdent_eq_false_of_isBlank (hb c (by simp))
  exact ⟨c :: w, hb, name_eq_ok_iff.mpr ⟨isName_text scope, spelled, ends⟩⟩

theorem fieldWithScope_eq (h : Shadowed n m scope k text rest) (hb : Blanks b) (limit : Nat) :
    fieldWithScope limit scope (b ++ (k.text.toList ++ rest)) =
      namedField limit (some scope) k.text rest := by
  have name : IsName k.text := by cases k <;> decide
  have read : Grammar.name (dropBlanks (b ++ (k.text.toList ++ rest))) = .ok (k.text, rest) := by
    rw [dropBlanks_inked hb name.1.exists_cons]
    exact name_eq_ok_iff.mpr ⟨name, rfl, h.named⟩
  rw [fieldWithScope, read]
  rfl

/-- The higher limit reads the field that was written. -/
theorem field_higher (h : Shadowed n m scope k text rest) :
    ∃ t desc, field m text = .ok ⟨.named k.text (some scope), t, desc⟩ := by
  obtain ⟨b, hb, word⟩ := h.word
  obtain ⟨⟨t, after⟩, higher⟩ := h.higher
  have read : namedField m (some scope) k.text rest =
      .ok ⟨.named k.text (some scope), t.ofPlace (questionMark rest).1, description after⟩ :=
    namedField_eq_ok_iff.mpr ⟨t, after, higher, rfl⟩
  rw [field_of_scope m word, h.fieldWithScope_eq hb, read]
  exact ⟨_, _, rfl⟩

/-- The lower limit reads a field that is named like the scope. -/
theorem field_lower (h : Shadowed n m scope k text rest) (pos : 0 < n) :
    field n text = .ok ⟨.named scope.text none, .keyword k, description rest⟩ := by
  obtain ⟨n, rfl⟩ : ∃ l, n = l + 1 := ⟨n - 1, by omega⟩
  obtain ⟨b, hb, word⟩ := h.word
  obtain ⟨found, higher⟩ := h.higher
  obtain ⟨s, lower⟩ := h.lower
  have name : IsName k.text := by cases k <;> decide
  have front := dropBlanks_inked hb name.1.exists_cons rest
  have keyword := readWithin_keyword (n := n) (plain_of_typed h.named higher)
    (mark?_of_typed higher (by decide) (by decide)) hb k
  have plain : namedField (n + 1) none scope.text (b ++ (k.text.toList ++ rest)) =
      .ok ⟨.named scope.text none, .keyword k, description rest⟩ := by
    rw [namedField_eq_ok_iff, questionMark_of_name name front]
    exact ⟨_, _, keyword, rfl⟩
  rw [field_of_scope (n + 1) word, h.fieldWithScope_eq hb, namedField_eq_error_iff.mpr lower, plain]
  rfl

end Shadowed

/-- Without any room there is no type, and so no field. -/
theorem field_zero (text : List Char) : ∃ s, field 0 text = .error s := by
  cases read : field 0 text with
  | error s => exact ⟨s, rfl⟩
  | ok f =>
    have admissible : Admissible 0 f.type := field_types read f.type (by simp [Field.types])
    exact absurd admissible.shallow (Nat.not_lt_zero _)

/-- The lower limit changes the field, and not to a failure, exactly on the texts that it reads as a
plain field. -/
theorem field_same_or_fails_iff (le : n ≤ m) (text : List Char) :
    (field n text = field m text ∨ ∃ s, field n text = .error s) ↔
      ¬ (0 < n ∧ ∃ scope k rest, Shadowed n m scope k text rest) := by
  constructor
  · rintro same ⟨pos, scope, k, rest, h⟩
    obtain ⟨t, desc, higher⟩ := h.field_higher
    rw [h.field_lower pos, higher] at same
    simp at same
  · intro none
    rcases Nat.eq_zero_or_pos n with rfl | pos
    · exact .inr (field_zero text)
    · exact (field_refuses le text).resolve_right fun shadowed => none ⟨pos, shadowed⟩

/-! ## Class blocks -/

/-- What the first reading reads has a counterpart in the second. -/
inductive Matched {ε α : Type} (R : α → α → Prop) : Except ε α → Except ε α → Prop where
  | failed (e : ε) (y : Except ε α) : Matched R (.error e) y
  | read {a b : α} : R a b → Matched R (.ok a) (.ok b)

namespace Matched
variable {ε δ α β : Type} {R : α → α → Prop} {x y : Except ε α}

theorem refl (hR : ∀ a, R a a) (x : Except ε α) : Matched R x x := by
  cases x with
  | error e => exact .failed e _
  | ok a => exact .read (hR a)

theorem bind {S : β → β → Prop} {f g : α → Except ε β} (h : Matched R x y)
    (next : ∀ a b, R a b → Matched S (f a) (g b)) : Matched S (x >>= f) (y >>= g) := by
  cases h with
  | failed e => exact .failed e _
  | read related => exact next _ _ related

theorem mapError (f : ε → δ) (h : Matched R x y) : Matched R (x.mapError f) (y.mapError f) := by
  cases h with
  | failed e => exact .failed (f e) _
  | read related => exact .read related

theorem exists_ok {a : α} (h : Matched R x y) (read : x = .ok a) : ∃ b, y = .ok b ∧ R a b := by
  cases h with
  | failed => cases read
  | read related =>
    cases read
    exact ⟨_, rfl, related⟩

theorem mono {S : α → α → Prop} (h : Matched R x y) (weaker : ∀ a b, R a b → S a b) :
    Matched S x y := by
  cases h with
  | failed e => exact .failed e _
  | read related => exact .read (weaker _ _ related)

/-- Equal counterparts: the readings are the same unless the first one fails. -/
theorem eq_iff : Matched Eq x y ↔ x = y ∨ ∃ e, x = .error e := by
  constructor
  · intro h
    cases h with
    | failed e => exact .inr ⟨e, rfl⟩
    | read same => exact .inl (congrArg Except.ok same)
  · rintro (rfl | ⟨e, rfl⟩)
    · exact refl (fun _ => rfl) x
    · exact .failed e y

end Matched

variable {R : Field → Field → Prop}

/-- The readings of all lines for fields are matched. -/
def FieldsMatched (R : Field → Field → Prop) (n m : Nat) (lines : List (List Char)) : Prop :=
  ∀ line ∈ lines, ∀ text, splitTag line = some (.field, text) →
    Matched R (field n text) (field m text)

theorem members_matched {lines : List (List Char)} (h : FieldsMatched R n m lines) (index : Nat)
    (markAllowed : Bool) :
    Matched (fun a b => a.1 = b.1 ∧ List.Forall₂ R a.2 b.2) (members n index markAllowed lines)
      (members m index markAllowed lines) := by
  induction lines generalizing index markAllowed with
  | nil => exact .read ⟨rfl, .nil⟩
  | cons line lines ih =>
    obtain ⟨first, others⟩ := List.forall_mem_cons.mp h
    have below := ih others
    simp only [members]
    split
    · split
      · apply (Matched.refl (R := Eq) (fun _ => rfl) _).bind
        rintro - - -
        apply (below (index + 1) false).bind
        rintro ⟨_, fs⟩ ⟨_, gs⟩ ⟨-, fields⟩
        exact .read ⟨rfl, fields⟩
      · exact .failed _ _
    · next text split =>
      apply ((first text split).mapError _).bind
      intro f g related
      apply (below (index + 1) false).bind
      rintro ⟨_, fs⟩ ⟨_, gs⟩ ⟨-, fields⟩
      exact .read ⟨rfl, .cons related fields⟩
    · split
      · exact below (index + 1) markAllowed
      · exact .failed _ _
    · exact .failed _ _

/-- All but the fields is the same. -/
def SameButFields (R : Field → Field → Prop) (c d : ClassDoc) : Prop :=
  d = { c with fields := d.fields } ∧ List.Forall₂ R c.fields d.fields

theorem classBlock_matched {lines : List String} (h : FieldsMatched R n m (lines.map body)) :
    Matched (SameButFields R) (classBlockWithin n lines) (classBlockWithin m lines) := by
  simp only [classBlockWithin]
  split
  · apply (Matched.refl (R := Eq) (fun _ => rfl) _).bind
    rintro header - rfl
    apply (members_matched (fun line mem => h line (List.mem_of_mem_drop mem)) _ _).bind
    rintro ⟨_, fs⟩ ⟨_, gs⟩ ⟨rfl, fields⟩
    cases fields with
    | nil => exact .failed _ _
    | cons first others => exact .read ⟨rfl, .cons first others⟩
  · exact .failed _ _

/-- The plain field stands in for the other one: its name is the scope of the other, and its type the
keyword that the other is named by. -/
def StandsInFor (f g : Field) : Prop :=
  ∃ scope k, f.key = .named (Scope.text scope) none ∧ f.type = .keyword k ∧
    g.key = .named k.text (some scope)

theorem Shadowed.matched (h : Shadowed n m scope k text rest) :
    Matched StandsInFor (field n text) (field m text) := by
  rcases Nat.eq_zero_or_pos n with rfl | pos
  · obtain ⟨s, failed⟩ := field_zero text
    rw [failed]
    exact .failed s _
  · obtain ⟨t, desc, higher⟩ := h.field_higher
    rw [h.field_lower pos, higher]
    exact .read ⟨scope, k, rfl, rfl, rfl⟩

theorem field_matched (le : n ≤ m) (text : List Char) :
    Matched (fun f g => f = g ∨ StandsInFor f g) (field n text) (field m text) := by
  rcases field_refuses le text with alike | ⟨scope, k, rest, shadowed⟩
  · exact (Matched.eq_iff.mpr alike).mono fun f g same => .inl same
  · exact shadowed.matched.mono fun f g standsIn => .inr standsIn

/-- No line for a field has a plain reading that stands in for one with a scope. -/
def Unshadowed (n m : Nat) (lines : List String) : Prop :=
  ∀ line ∈ lines, ∀ text, splitTag (body line) = some (.field, text) →
    ∀ scope k rest, ¬ Shadowed n m scope k text rest

theorem classBlock_of_unshadowed (le : n ≤ m) {lines : List String} (h : Unshadowed n m lines) :
    classBlockWithin n lines = classBlockWithin m lines ∨
      ∃ e, classBlockWithin n lines = .error e := by
  have fields : FieldsMatched Eq n m (lines.map body) := by
    intro line mem text split
    obtain ⟨source, hs, rfl⟩ := List.mem_map.mp mem
    refine Matched.eq_iff.mpr ((field_refuses le text).resolve_right ?_)
    rintro ⟨scope, k, rest, shadowed⟩
    exact h source hs text split scope k rest shadowed
  refine Matched.eq_iff.mp ((classBlock_matched fields).mono ?_)
  rintro c d ⟨but, same⟩
  rw [List.forall₂_eq_eq_eq] at same
  rw [but, ← same]

/-- A lower limit changes a field in one way, and not to a failure: where the word for a scope and a
keyword stand before a type that only the higher limit admits, it reads a plain field, named by the
scope and of the type of the keyword, and not the field of that scope, named by the keyword. A class
without such lines is the class under the higher limit or it fails; any other class differs from it in
those fields only. The shapes that are tried one after the other at an offset read the same. -/
theorem class_under_lower_limit {n m : Nat} (le : n ≤ m) :
    (∀ text, (field n text = field m text ∨ ∃ s, field n text = .error s) ↔
      ¬ (0 < n ∧ ∃ scope k rest, Shadowed n m scope k text rest)) ∧
    (∀ text scope k rest, 0 < n → Shadowed n m scope k text rest →
      field n text = .ok ⟨.named scope.text none, .keyword k, description rest⟩ ∧
      ∃ t desc, field m text = .ok ⟨.named k.text (some scope), t, desc⟩) ∧
    (∀ lines, Unshadowed n m lines → classBlockWithin n lines = classBlockWithin m lines ∨
      ∃ e, classBlockWithin n lines = .error e) ∧
    (∀ lines c, classBlockWithin n lines = .ok c → ∃ d, classBlockWithin m lines = .ok d ∧
      SameButFields (fun f g => f = g ∨ StandsInFor f g) c d) ∧
    (∀ limit lines, (AtOffset.classBlock limit lines).run = some (classBlockWithin limit lines)) ∧
    classBlock = classBlockWithin depthLimit := by
  refine ⟨field_same_or_fails_iff le, fun text scope k rest pos shadowed => ?_,
    fun lines => classBlock_of_unshadowed le, fun lines c read => ?_, fun limit lines => ?_, rfl⟩
  · exact ⟨shadowed.field_lower pos, shadowed.field_higher⟩
  · exact (classBlock_matched fun line _ text _ => field_matched le text).exists_ok read
  · rw [AtOffset.classBlock_eq]
    rfl

theorem shadowed_of_isOk (rest : List Char)
    (spelled : dropBlanks text = scope.text.toList ++ ' ' :: (k.text.toList ++ ' ' :: rest))
    (higher : (readWithin m (questionMark (' ' :: rest)).2).isOk = true)
    (lower : (readWithin n (questionMark (' ' :: rest)).2).isOk = false) :
    Shadowed n m scope k text (' ' :: rest) := by
  refine ⟨⟨[' '], by decide, by decide, spelled⟩, by rintro c ⟨⟩; rfl, ?_, ?_⟩
  · cases read : readWithin m (questionMark (' ' :: rest)).2 with
    | ok found => exact ⟨found, rfl⟩
    | error s => simp [read, Except.isOk, Except.toBool] at higher
  · cases read : readWithin n (questionMark (' ' :: rest)).2 with
    | ok found => simp [read, Except.isOk, Except.toBool] at lower
    | error s => exact ⟨s, rfl⟩

/-- With one level of nesting a private field that returns a function is read as a string of the
name `private`. -/
theorem class_under_lower_limit_private :
    let text := " private string fun(): nil  of old".toList
    let lines := ["---@class a.B", "---@field" ++ String.ofList text]
    1 ≤ 2 ∧ Shadowed 1 2 .scopePrivate .string text " fun(): nil  of old".toList ∧
    field 1 text = .ok ⟨.named "private" none, .keyword .string, "fun(): nil  of old"⟩ ∧
    ∃ c d, classBlockWithin 1 lines = .ok c ∧ classBlockWithin 2 lines = .ok d ∧
      SameButFields (fun f g => f = g ∨ StandsInFor f g) c d := by
  intro text lines
  have shadowed : Shadowed 1 2 .scopePrivate .string text " fun(): nil  of old".toList :=
    shadowed_of_isOk "fun(): nil  of old".toList (by decide) (by decide +kernel) (by decide +kernel)
  obtain ⟨-, standIn, -, classes, -⟩ := class_under_lower_limit (show 1 ≤ 2 by decide)
  have field := (standIn text .scopePrivate .string _ (by decide) shadowed).1
  refine ⟨by decide, shadowed, field, ?_⟩
  have possible : (classBlockWithin 1 lines).isOk := by decide +kernel
  cases lower : classBlockWithin 1 lines with
  | error e => simp [lower, Except.isOk, Except.toBool] at possible
  | ok c =>
    obtain ⟨d, higher, alike⟩ := classes lines c lower
    exact ⟨c, d, rfl, higher, alike⟩

/-- A private field of a deep type is read as one of the name `private`, which everybody may use.
One more level of nesting reads the field that was written. So it is under a limit of one level and
under the limit of sources. -/
theorem field_shadowed :
    let lines := ["---@class a.B", "---@field private string fun(): nil"]
    let listed (c : ClassDoc) := c.publicParams.map fun p => (p.name, p.type.text, p.desc)
    let deep := (List.replicate depthLimit "fun():".toList).flatten ++ "nil".toList
    let text := " private string ".toList ++ deep
    (classBlockWithin 1 lines).toOption.map listed =
      some [("private", "string", "fun(): nil")] ∧
    (classBlockWithin 2 lines).toOption.map listed = some [] ∧
    field depthLimit text = .ok ⟨.named "private" none, .keyword .string, String.ofList deep⟩ ∧
    ∃ t desc, field (depthLimit + 1) text = .ok ⟨.named "string" (some .scopePrivate), t, desc⟩ := by
  intro lines listed deep text
  have shadowed : Shadowed depthLimit (depthLimit + 1) .scopePrivate .string text (' ' :: deep) :=
    shadowed_of_isOk deep (by decide +kernel) (by decide +kernel) (by decide +kernel)
  have behind : description (' ' :: deep) = String.ofList deep := by decide +kernel
  have lower := shadowed.field_lower (by decide)
  rw [behind] at lower
  exact ⟨by decide +kernel, by decide +kernel, lower, shadowed.field_higher⟩

end Comment
end Annodoc
