import Annodoc.Proofs.Grammar.Span
import Mathlib.Data.List.Basic

/-!
# What the token readers read

Each small reader succeeds exactly on the texts that begin with what it reads, and says what may
not follow. The items between separators are read in a run whose rounds never run out.
-/

namespace Annodoc.Grammar
open Text

/-- One character or more, all letters, digits and underscores. -/
def IsWord (s : String) : Prop := s.toList ≠ [] ∧ ∀ c ∈ s.toList, isIdent c = true

instance (s : String) : Decidable (IsWord s) :=
  decidable_of_iff (s.toList ≠ [] ∧ s.toList.all isIdent = true) (and_congr_right' List.all_eq_true)

/-- A word that does not begin with a digit. -/
def IsName (s : String) : Prop := IsWord s ∧ ∀ c ∈ s.toList.head?, c.isDigit = false

instance (s : String) : Decidable (IsName s) :=
  decidable_of_iff (IsWord s ∧ s.toList.head?.all (fun c => !c.isDigit) = true)
    (and_congr_right' (by simp [Option.all_eq_true]))

/-- A word that stands in front of `rest` ends there. -/
def IdentEnds (rest : List Char) : Prop := ∀ c ∈ rest.head?, isIdent c = false

theorem bind_eq_ok_iff {ε α β : Type} {x : Except ε α} {f : α → Except ε β} {b : β} :
    x >>= f = .ok b ↔ ∃ a, x = .ok a ∧ f a = .ok b := by
  cases x <;> simp [bind, Except.bind]

theorem bind_eq_error_iff {ε α β : Type} {x : Except ε α} {f : α → Except ε β} {e : ε} :
    x >>= f = .error e ↔ x = .error e ∨ ∃ a, x = .ok a ∧ f a = .error e := by
  cases x <;> simp [bind, Except.bind]

theorem mapError_eq_ok_iff {ε δ α : Type} {x : Except ε α} {f : ε → δ} {a : α} :
    x.mapError f = .ok a ↔ x = .ok a := by
  cases x <;> simp [Except.mapError]

theorem atLine_eq_ok_iff {α : Type} {index : Nat} {line : List Char} {reading : Except Stop α}
    {a : α} : LineMismatch.atLine index line reading = .ok a ↔ reading = .ok a :=
  mapError_eq_ok_iff

theorem mapError_eq_error_iff {ε δ α : Type} {x : Except ε α} {f : ε → δ} {e : δ} :
    x.mapError f = .error e ↔ ∃ d, x = .error d ∧ f d = e := by
  cases x <;> simp [Except.mapError]

variable {c : Char} {w cs mid rest : List Char}

theorem isBlank_eq_false_of_isIdent (h : isIdent c = true) : isBlank c = false := by
  by_contra hb
  simp only [isBlank, Bool.not_eq_false, Bool.or_eq_true, decide_eq_true_eq] at hb
  rcases hb with rfl | rfl <;> exact absurd h (by decide)

theorem isIdent_of_isDigit (h : c.isDigit = true) : isIdent c = true := by
  simp [isIdent, Char.isAlphanum, h]

theorem takeWhile_append_exact {α : Type} {p : α → Bool} {w rest : List α}
    (hw : ∀ a ∈ w, p a = true) (hr : ∀ a ∈ rest.head?, p a = false) :
    (w ++ rest).takeWhile p = w := by
  rw [List.takeWhile_append_of_pos hw]
  cases rest with
  | nil => simp
  | cons a as => simp [hr a rfl]

theorem dropWhile_append_exact {α : Type} {p : α → Bool} {w rest : List α}
    (hw : ∀ a ∈ w, p a = true) (hr : ∀ a ∈ rest.head?, p a = false) :
    (w ++ rest).dropWhile p = rest := by
  rw [List.dropWhile_append_of_pos hw]
  cases rest with
  | nil => rfl
  | cons a as => simp [hr a rfl]

theorem eq_of_dropWhile_ne {d : Char} (h : cs.dropWhile (· ≠ c) = d :: rest) : d = c := by
  have first := List.head?_dropWhile_not (fun d => decide (d ≠ c)) cs
  rw [h] at first
  simpa using first

/-- What stands before a `c` and holds none is what stands before the first one. -/
theorem before_first_iff :
    (cs.takeWhile (· ≠ c) = w ∧ cs.dropWhile (· ≠ c) = c :: rest) ↔
      c ∉ w ∧ cs = w ++ c :: rest := by
  constructor
  · rintro ⟨rfl, behind⟩
    refine ⟨fun mem => by simpa using List.mem_takeWhile_imp mem, ?_⟩
    rw [← behind]
    exact List.takeWhile_append_dropWhile.symm
  · rintro ⟨free, rfl⟩
    have all : ∀ d ∈ w, decide (d ≠ c) = true := by
      rintro d mem
      exact decide_eq_true fun eq => free (eq ▸ mem)
    exact ⟨takeWhile_append_exact all (by simp), dropWhile_append_exact all (by simp)⟩

theorem identPart_append (hw : ∀ c ∈ w, isIdent c = true) (h : IdentEnds rest) :
    identPart (w ++ rest) = w := takeWhile_append_exact hw h

theorem afterIdent_append (hw : ∀ c ∈ w, isIdent c = true) (h : IdentEnds rest) :
    afterIdent (w ++ rest) = rest := dropWhile_append_exact hw h

theorem isIdent_of_mem_identPart (h : c ∈ identPart cs) : isIdent c = true :=
  List.mem_takeWhile_imp h

theorem identEnds_afterIdent (cs : List Char) : IdentEnds (afterIdent cs) := by
  induction cs with
  | nil => simp [IdentEnds, afterIdent]
  | cons d ds ih =>
    by_cases hd : isIdent d = true
    · simpa [afterIdent, hd] using ih
    · simp [IdentEnds, afterIdent, hd]

theorem identPart_eq_nil_iff : identPart cs = [] ↔ IdentEnds cs := by
  cases cs with
  | nil => simp [identPart, IdentEnds]
  | cons d ds => by_cases hd : isIdent d = true <;> simp [identPart, IdentEnds, hd]

theorem isWord_ofList (hne : w ≠ []) (hw : ∀ c ∈ w, isIdent c = true) :
    IsWord (String.ofList w) := by simpa [IsWord] using ⟨hne, hw⟩

/-- A text with a mark in front begins with a blank or with the mark. -/
theorem head_of_mark? (h : mark? c cs = some rest) : ∀ d ∈ cs.head?, isBlank d = true ∨ d = c := by
  intro d hd
  cases cs with
  | nil => simp at hd
  | cons e es =>
    obtain rfl : e = d := by simpa using hd
    by_cases hb : isBlank e = true
    · exact .inl hb
    · rw [mark?, dropBlanks_cons (by simpa using hb)] at h
      by_cases hec : e = c
      · exact .inr hec
      · simp [hec] at h

theorem isIdent_eq_false_of_isBlank (h : isBlank c = true) : isIdent c = false := by
  by_contra hc
  rw [isBlank_eq_false_of_isIdent (by simpa using hc)] at h
  exact absurd h (by simp)

theorem identEnds_of_mark? (hc : isIdent c = false) (h : mark? c cs = some rest) :
    IdentEnds cs := by
  intro d hd
  rcases head_of_mark? h d hd with hb | rfl
  · exact isIdent_eq_false_of_isBlank hb
  · exact hc

theorem mark?_eq_none_of_ne {d : Char} (h : mark? c cs = some rest) (hd : c ≠ d) :
    mark? d cs = none := by
  rw [mark?] at h ⊢
  cases eq : dropBlanks cs with
  | nil => rfl
  | cons e es =>
    rw [eq] at h
    by_cases hec : e = c
    · simp [hec, hd]
    · simp [hec] at h

theorem mark?_append {b : List Char} (hb : Blanks b) (c : Char) (cs : List Char) :
    mark? c (b ++ cs) = mark? c cs := by rw [mark?, mark?, dropBlanks_append hb]

theorem mark?_of_blanks (h : Blanks rest) (c : Char) : mark? c rest = none := by
  rw [mark?, dropBlanks_eq_nil_iff.mpr h]

theorem IsWord.exists_ident {s : String} (h : IsWord s) :
    ∃ c cs, s.toList = c :: cs ∧ isIdent c = true := by
  obtain ⟨c, cs, hs⟩ := List.exists_cons_of_ne_nil h.1
  exact ⟨c, cs, hs, h.2 c (by simp [hs])⟩

theorem IsWord.exists_cons {s : String} (h : IsWord s) :
    ∃ c cs, s.toList = c :: cs ∧ isBlank c = false := by
  obtain ⟨c, cs, hs, ident⟩ := h.exists_ident
  exact ⟨c, cs, hs, isBlank_eq_false_of_isIdent ident⟩

/-- In front of a word there is no mark. -/
theorem mark?_word {s : String} (h : IsWord s) (hc : isIdent c = false) (rest : List Char) :
    mark? c (s.toList ++ rest) = none := by
  obtain ⟨d, cs, hs, ident⟩ := h.exists_ident
  have other : d ≠ c := by
    rintro rfl
    rw [hc] at ident
    cases ident
  rw [mark?, hs, List.cons_append, dropBlanks_cons (isBlank_eq_false_of_isIdent ident)]
  exact if_neg other

theorem inked_token (hne : w ≠ []) (hw : ∀ c ∈ w, isIdent c = true)
    (ps : List Piece) (w' : List Char) : Inked (.token (w ++ w') :: ps) := by
  obtain ⟨c, cs, rfl⟩ := List.exists_cons_of_ne_nil hne
  exact ⟨c, cs ++ w', ps, rfl, isBlank_eq_false_of_isIdent (hw c (by simp))⟩

theorem inkedEnd_token (hne : w ≠ []) (hw : ∀ c ∈ w, isIdent c = true)
    (w' : List Char) : InkedEnd [.token (w' ++ w)] := by
  obtain ⟨cs, c, rfl⟩ := List.eq_nil_or_concat' w |>.resolve_left hne
  exact ⟨[], w' ++ cs, c, by simp, isBlank_eq_false_of_isIdent (hw c (by simp))⟩

theorem mark_eq_ok_iff : mark c cs = .ok rest ↔ mark? c cs = some rest := by
  rw [mark]
  cases mark? c cs <;> simp

theorem name_eq_ok_iff {s : String} :
    name cs = .ok (s, rest) ↔ IsName s ∧ cs = s.toList ++ rest ∧ IdentEnds rest := by
  constructor
  · intro h
    cases cs with
    | nil => simp [name] at h
    | cons d ds =>
      simp only [name] at h
      split at h
      · rename_i hd
        simp only [Bool.and_eq_true, Bool.not_eq_true'] at hd
        simp only [Except.ok.injEq, Prod.mk.injEq] at h
        obtain ⟨rfl, rfl⟩ := h
        have hp : identPart (d :: ds) = d :: identPart ds := by simp [identPart, hd.1]
        refine ⟨⟨isWord_ofList (by simp [hp]) fun _ => isIdent_of_mem_identPart, ?_⟩, ?_,
          identEnds_afterIdent _⟩
        · simpa [hp] using hd.2
        · simp [identPart_append_afterIdent]
      · exact absurd h (by simp)
  · intro h
    obtain ⟨⟨⟨hne, hw⟩, hd⟩, rfl, he⟩ := h
    obtain ⟨d, ds, hs⟩ := List.exists_cons_of_ne_nil hne
    have hp := identPart_append hw he
    have ha := afterIdent_append hw he
    rw [hs] at hp ha hw hd ⊢
    rw [List.cons_append] at hp ha ⊢
    simp only [name, hw d (by simp), hd d (by simp), hp, ha, Bool.not_false, Bool.and_self,
      if_true]
    rw [← hs, String.ofList_toList]

theorem mark_error {s : Stop} (h : mark c cs = .error s) : s = ⟨.token c, dropBlanks cs⟩ := by
  rw [mark] at h
  split at h
  · cases h
  · exact (Except.error.inj h).symm

theorem name_error {s : Stop} (h : name cs = .error s) : s = ⟨.aName, cs⟩ := by
  rw [name.eq_def] at h
  split at h
  · split at h
    · cases h
    · exact (Except.error.inj h).symm
  · exact (Except.error.inj h).symm

theorem spans_questionMark (cs : List Char) :
    Spans (if (questionMark cs).1 then sign '?' else []) cs (questionMark cs).2 := by
  rw [questionMark]
  cases h : mark? '?' cs with
  | none => exact spans_nil.mpr rfl
  | some rest => exact (spans_sign rfl).mpr h

theorem questionMark_eq {optional : Bool}
    (h : Spans (if optional then sign '?' else []) cs mid)
    (hn : optional = false → mark? '?' mid = none) : questionMark cs = (optional, mid) := by
  cases optional with
  | true => rw [questionMark, (spans_sign rfl).mp h]
  | false =>
    obtain rfl := spans_nil.mp h
    rw [questionMark, hn rfl]

theorem identEnds_of_questionMark {optional : Bool} 
    (h : Spans (if optional then sign '?' else []) cs mid) (hm : mark? ':' mid = some rest) :
    IdentEnds cs := by
  cases optional with
  | true => exact identEnds_of_mark? rfl ((spans_sign rfl).mp h)
  | false =>
    obtain rfl := spans_nil.mp h
    exact identEnds_of_mark? rfl hm

section Items

variable {α : Type} {sep : Char} {item : Reader α} {xs : List α} {spaced : Bool}

/-- A run of further items, each after the mark `sep`, until no mark follows. -/
inductive Further (sep : Char) (item : Reader α) : List α → List Char → List Char → Prop where
  | done {cs : List Char} : mark? sep cs = none → Further sep item [] cs cs
  | more {x : α} {ys : List α} {cs mid after rest : List Char} : mark? sep cs = some mid →
      item mid = .ok (x, after) → Further sep item ys after rest →
      Further sep item (x :: ys) cs rest

theorem further_of_none (h : mark? sep cs = none) :
    Further sep item xs cs rest ↔ xs = [] ∧ cs = rest := by
  constructor
  · intro hf
    cases hf with
    | done => exact ⟨rfl, rfl⟩
    | more hm => simp [h] at hm
  · intro h
    obtain ⟨rfl, rfl⟩ := h
    exact .done h

theorem further_of_some (h : mark? sep cs = some mid) : Further sep item xs cs rest ↔
    ∃ x after ys, item mid = .ok (x, after) ∧ Further sep item ys after rest ∧ x :: ys = xs := by
  constructor
  · intro hf
    cases hf with
    | done hm => simp [h] at hm
    | more hm hx hf =>
      obtain rfl := Option.some.inj (h.symm.trans hm)
      exact ⟨_, _, _, hx, hf, rfl⟩
  · intro h
    obtain ⟨x, after, ys, hx, hf, rfl⟩ := h
    exact .more h hx hf

theorem length_lt_of_mark? (h : mark? c cs = some rest) : rest.length < cs.length := by
  have hle : (dropBlanks cs).length ≤ cs.length := (List.dropWhile_suffix isBlank).length_le
  rw [mark?] at h
  split at h
  · rename_i d ds eq
    split at h
    · obtain rfl : ds = rest := by simpa using h
      rw [eq, List.length_cons] at hle
      omega
    · exact absurd h (by simp)
  · exact absurd h (by simp)

/-- Every round takes a mark, so as many rounds as there are characters read the whole run. -/
theorem moreItems_eq_ok_iff {rounds : Nat}
    (shrinks : ∀ cs x rest, item cs = .ok (x, rest) → rest.length ≤ cs.length)
    (enough : cs.length ≤ rounds) :
    moreItems sep item rounds cs = .ok (xs, rest) ↔ Further sep item xs cs rest := by
  induction rounds generalizing cs xs with
  | zero =>
    obtain rfl : cs = [] := List.length_eq_zero_iff.mp (by omega)
    rw [further_of_none rfl]
    simp [moreItems, eq_comm]
  | succ rounds ih =>
    rw [moreItems]
    cases hm : mark? sep cs with
    | none =>
      rw [further_of_none hm]
      simp [eq_comm]
    | some mid =>
      have hlt := length_lt_of_mark? hm
      have next : ∀ x after ys, item mid = .ok (x, after) →
          (moreItems sep item rounds after = .ok (ys, rest) ↔ Further sep item ys after rest) := by
        intro x after ys hx
        have hle := shrinks _ _ _ hx
        exact ih (by omega)
      simp only [further_of_some hm, bind_eq_ok_iff]
      constructor
      · intro h
        obtain ⟨⟨x, after⟩, hx, ⟨ys, _⟩, hr, h⟩ := h
        obtain ⟨rfl, rfl⟩ : x :: ys = xs ∧ _ = rest := by simpa using h
        exact ⟨x, after, ys, hx, (next x after ys hx).mp hr, rfl⟩
      · intro h
        obtain ⟨x, after, ys, hx, hf, rfl⟩ := h
        exact ⟨(x, after), hx, (ys, rest), (next x after ys hx).mpr hf, rfl⟩

theorem items_eq_ok_iff
    (shrinks : ∀ cs x rest, item cs = .ok (x, rest) → rest.length ≤ cs.length) :
    items sep item cs = .ok (xs, rest) ↔
      ∃ x mid ys, item cs = .ok (x, mid) ∧ Further sep item ys mid rest ∧ x :: ys = xs := by
  have next : ∀ mid ys, moreItems sep item mid.length mid = .ok (ys, rest) ↔
      Further sep item ys mid rest := fun _ _ => moreItems_eq_ok_iff shrinks (Nat.le_refl _)
  simp only [items, bind_eq_ok_iff]
  constructor
  · intro h
    obtain ⟨⟨x, mid⟩, hx, ⟨ys, _⟩, hr, h⟩ := h
    obtain ⟨rfl, rfl⟩ : x :: ys = xs ∧ _ = rest := by simpa using h
    exact ⟨x, mid, ys, hx, (next mid ys).mp hr, rfl⟩
  · intro h
    obtain ⟨x, mid, ys, hx, hf, rfl⟩ := h
    exact ⟨(x, mid), hx, (ys, rest), (next mid ys).mpr hf, rfl⟩

/-- One item or more, written before `rest`: every item is fit, those with a further one behind
them may stand there, and the last one may stand before `rest`. -/
structure ItemsStand (sep : Char) (spaced : Bool) (pieces : α → List Piece) (Fit Inner : α → Prop)
    (Last : α → List Char → Prop) (xs : List α) (cs rest : List Char) : Prop where
  nonempty : xs ≠ []
  fit : ∀ x ∈ xs, Fit x
  spans : Spans (.gap false :: separated sep spaced (xs.map pieces)) cs rest
  inner : ∀ x ∈ xs.dropLast, Inner x
  last : ∀ x ∈ xs.getLast?, Last x rest
  ended : mark? sep rest = none

variable {pieces : α → List Piece} {Fit Inner : α → Prop} {Last : α → List Char → Prop}

theorem itemsStand_singleton {x : α} :
    ItemsStand sep spaced pieces Fit Inner Last [x] cs rest ↔
      (Fit x ∧ Spans (.gap false :: pieces x) cs rest ∧ Last x rest) ∧ mark? sep rest = none := by
  constructor
  · intro h
    have hs := h.spans
    simp only [List.map_cons, List.map_nil, separated, List.flatMap_nil, List.append_nil] at hs
    exact ⟨⟨h.fit x (by simp), hs, h.last x (by simp)⟩, h.ended⟩
  · intro h
    obtain ⟨⟨hf, hs, hl⟩, he⟩ := h
    exact ⟨by simp, by simpa using hf, by simpa [separated] using hs, by simp,
      by simpa using hl, he⟩

theorem itemsStand_cons_cons (hsep : isBlank sep = false) {x y : α} {ys : List α} :
    ItemsStand sep spaced pieces Fit Inner Last (x :: y :: ys) cs rest ↔
      ∃ mid after, (Fit x ∧ Spans (.gap false :: pieces x) cs mid ∧ Inner x) ∧
        mark? sep mid = some after ∧
        ItemsStand sep spaced pieces Fit Inner Last (y :: ys) after rest := by
  constructor
  · intro h
    obtain ⟨mid, after, hx, hm, hy⟩ := (spans_separated_cons_cons hsep).mp h.spans
    exact ⟨mid, after, ⟨h.fit x (by simp), hx, h.inner x (by simp)⟩, hm, by simp,
      fun z hz => h.fit z (List.mem_cons_of_mem x hz), hy,
      fun z hz => h.inner z (List.mem_cons_of_mem x hz), h.last, h.ended⟩
  · intro h
    obtain ⟨mid, after, ⟨hf, hx, hi⟩, hm, h⟩ := h
    exact ⟨by simp, List.forall_mem_cons.mpr ⟨hf, h.fit⟩,
      (spans_separated_cons_cons hsep).mpr ⟨mid, after, hx, hm, h.spans⟩,
      List.forall_mem_cons.mpr ⟨hi, h.inner⟩, h.last, h.ended⟩

/-- A reader of items reads what stands, if the reader of one item does. -/
theorem items_eq_ok_iff_itemsStand (spaced : Bool) (hsep : isBlank sep = false)
    (one : ∀ cs x rest, item cs = .ok (x, rest) ↔
      Fit x ∧ Spans (.gap false :: pieces x) cs rest ∧ Last x rest)
    (before : ∀ x rest, Fit x → mark? sep rest ≠ none → (Last x rest ↔ Inner x)) :
    items sep item cs = .ok (xs, rest) ↔
      ItemsStand sep spaced pieces Fit Inner Last xs cs rest := by
  have shrinks : ∀ cs x rest, item cs = .ok (x, rest) → rest.length ≤ cs.length :=
    fun cs x rest h => ((one cs x rest).mp h).2.1.length_le
  have run : ∀ ys x cs, (∃ mid, item cs = .ok (x, mid) ∧ Further sep item ys mid rest) ↔
      ItemsStand sep spaced pieces Fit Inner Last (x :: ys) cs rest := by
    intro ys
    induction ys with
    | nil =>
      intro x cs
      rw [itemsStand_singleton, ← one]
      constructor
      · intro h
        obtain ⟨mid, hx, hf⟩ := h
        cases hf with
        | done hm => exact ⟨hx, hm⟩
      · intro h
        obtain ⟨hx, hm⟩ := h
        exact ⟨rest, hx, .done hm⟩
    | cons y ys ih =>
      intro x cs
      rw [itemsStand_cons_cons hsep]
      constructor
      · intro h
        obtain ⟨mid, hx, hf⟩ := h
        cases hf with
        | more hm hy hf =>
          obtain ⟨hfit, hs, hl⟩ := (one _ _ _).mp hx
          exact ⟨mid, _, ⟨hfit, hs, (before _ _ hfit (by simp [hm])).mp hl⟩, hm,
            (ih y _).mp ⟨_, hy, hf⟩⟩
      · intro h
        obtain ⟨mid, after, ⟨hfit, hs, hi⟩, hm, h⟩ := h
        obtain ⟨next, hy, hf⟩ := (ih y after).mpr h
        exact ⟨mid, (one _ _ _).mpr ⟨hfit, hs, (before _ _ hfit (by simp [hm])).mpr hi⟩,
          .more hm hy hf⟩
  rw [items_eq_ok_iff shrinks]
  constructor
  · intro h
    obtain ⟨x, mid, ys, hx, hf, rfl⟩ := h
    exact (run ys x cs).mp ⟨mid, hx, hf⟩
  · intro h
    obtain ⟨x, ys, rfl⟩ := List.exists_cons_of_ne_nil h.nonempty
    obtain ⟨mid, hx, hf⟩ := (run ys x cs).mpr h
    exact ⟨x, mid, ys, hx, hf, rfl⟩

end Items

end Annodoc.Grammar
