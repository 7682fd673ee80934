import Annodoc.Grammar.Token
import Mathlib.Data.List.Basic
import Mathlib.Data.List.TakeWhile

/-!
# Tokens and the gaps between them

A written form is a list of pieces: tokens, and gaps that any run of blanks may fill. Texts that
fill the same pieces differ only in their blanks.
-/

namespace Annodoc.Grammar
open Text

/-- Spaces and tabs only. -/
def Blanks (cs : List Char) : Prop := ∀ c ∈ cs, isBlank c = true

instance (cs : List Char) : Decidable (Blanks cs) :=
  decidable_of_iff (cs.all isBlank = true) List.all_eq_true

theorem blanks_nil : Blanks [] := by simp [Blanks]

theorem dropBlanks_append {b : List Char} (hb : Blanks b) (cs : List Char) :
    dropBlanks (b ++ cs) = dropBlanks cs := List.dropWhile_append_of_pos hb

theorem dropBlanks_cons {c : Char} (hc : isBlank c = false) (cs : List Char) :
    dropBlanks (c :: cs) = c :: cs := by simp [dropBlanks, hc]

/-- What is skipped is blanks, and what is left does not begin with one. -/
theorem exists_blanks (cs : List Char) : ∃ b, Blanks b ∧ cs = b ++ dropBlanks cs := by
  refine ⟨cs.takeWhile isBlank, ?_, List.takeWhile_append_dropWhile.symm⟩
  intro c hc
  exact List.mem_takeWhile_imp hc

theorem dropBlanks_eq_nil_iff {cs : List Char} : dropBlanks cs = [] ↔ Blanks cs :=
  List.dropWhile_eq_nil_iff

inductive Piece where
  | token (text : List Char)
  /-- A gap, in which the canonical text has one space or nothing. -/
  | gap (spaced : Bool)

/-- What the canonical text has for a piece. -/
def Piece.shown : Piece → List Char
  | .token t => t
  | .gap spaced => if spaced then [' '] else []

/-- The canonical text of a written form. -/
def shown (ps : List Piece) : List Char := ps.flatMap Piece.shown

@[simp] theorem shown_append (ps qs : List Piece) : shown (ps ++ qs) = shown ps ++ shown qs :=
  List.flatMap_append

@[simp] theorem shown_cons (p : Piece) (ps : List Piece) : shown (p :: ps) = p.shown ++ shown ps :=
  List.flatMap_cons

@[simp] theorem shown_nil : shown [] = [] := rfl

/-- The text `r` is the tokens, with blanks in the gaps. -/
inductive Fills : List Piece → List Char → Prop where
  | nil : Fills [] []
  | token {t ps r} : Fills ps r → Fills (.token t :: ps) (t ++ r)
  | gap {spaced b ps r} : Blanks b → Fills ps r → Fills (.gap spaced :: ps) (b ++ r)

theorem fills_shown (ps : List Piece) : Fills ps (shown ps) := by
  induction ps with
  | nil => exact .nil
  | cons p ps ih =>
    cases p with
    | token t => exact .token ih
    | gap spaced =>
      refine .gap ?_ ih
      cases spaced <;> simp [Blanks, Piece.shown, isBlank]

/-- Whether a text fills the pieces: a gap takes some of the blanks in front. -/
def fills : List Piece → List Char → Bool
  | [], r => r.isEmpty
  | .token t :: ps, r =>
    match t.isPrefixOf? r with
    | some r => fills ps r
    | none => false
  | .gap _ :: ps, r =>
    (List.range (r.length + 1)).any fun n => (r.take n).all isBlank && fills ps (r.drop n)

theorem fills_eq_true_iff {ps : List Piece} {r : List Char} : fills ps r = true ↔ Fills ps r := by
  induction ps generalizing r with
  | nil =>
    constructor
    · intro h
      obtain rfl : r = [] := by simpa [fills] using h
      exact .nil
    · intro h
      cases h
      rfl
  | cons p ps ih =>
    cases p with
    | token t =>
      constructor
      · intro h
        rw [fills] at h
        split at h
        · rename_i r' hp
          obtain rfl := List.isPrefixOf?_eq_some_iff_append_eq.mp hp
          exact .token (ih.mp h)
        · exact absurd h (by simp)
      · intro h
        cases h with
        | token h =>
          rw [fills, List.isPrefixOf?_eq_some_iff_append_eq.mpr rfl]
          exact ih.mpr h
    | gap s =>
      simp only [fills, List.any_eq_true, List.mem_range, Bool.and_eq_true, List.all_eq_true]
      constructor
      · intro h
        obtain ⟨n, -, hb, h⟩ := h
        rw [← List.take_append_drop n r]
        exact .gap hb (ih.mp h)
      · intro h
        cases h with
        | @gap _ b _ r hb h =>
          have short : b.length < (b ++ r).length + 1 := by
            rw [List.length_append]
            omega
          refine ⟨b.length, short, ?_, by simpa using ih.mpr h⟩
          simpa using show ∀ c ∈ b, isBlank c = true from hb

instance (ps : List Piece) (r : List Char) : Decidable (Fills ps r) :=
  decidable_of_iff (fills ps r = true) fills_eq_true_iff

/-- The pieces are filled by the part of `cs` that stands before `rest`. -/
def Spans (ps : List Piece) (cs rest : List Char) : Prop := ∃ r, cs = r ++ rest ∧ Fills ps r

variable {ps qs : List Piece} {cs mid rest : List Char} {c : Char} {spaced : Bool}

theorem spans_nil : Spans [] cs rest ↔ cs = rest := by
  constructor
  · intro h
    obtain ⟨r, rfl, h⟩ := h
    cases h
    rfl
  · intro eq
    subst eq
    exact ⟨[], rfl, .nil⟩

theorem spans_token {t : List Char} :
    Spans (.token t :: ps) cs rest ↔ ∃ mid, cs = t ++ mid ∧ Spans ps mid rest := by
  constructor
  · intro h
    obtain ⟨r, rfl, h⟩ := h
    cases h with
    | @token _ _ r h => exact ⟨r ++ rest, by simp, r, rfl, h⟩
  · intro h
    obtain ⟨_, rfl, r, rfl, h⟩ := h
    exact ⟨t ++ r, by simp, .token h⟩

theorem spans_gap :
    Spans (.gap spaced :: ps) cs rest ↔ ∃ b mid, Blanks b ∧ cs = b ++ mid ∧ Spans ps mid rest := by
  constructor
  · intro h
    obtain ⟨r, rfl, h⟩ := h
    cases h with
    | @gap _ b _ r hb h => exact ⟨b, r ++ rest, hb, by simp, r, rfl, h⟩
  · intro h
    obtain ⟨b, _, hb, rfl, r, rfl, h⟩ := h
    exact ⟨b ++ r, by simp, .gap hb h⟩

theorem spans_append :
    Spans (ps ++ qs) cs rest ↔ ∃ mid, Spans ps cs mid ∧ Spans qs mid rest := by
  induction ps generalizing cs with
  | nil => simp [spans_nil]
  | cons p ps ih =>
    cases p with
    | token t =>
      simp only [List.cons_append, spans_token, ih]
      constructor
      · intro h
        obtain ⟨a, rfl, mid, h, k⟩ := h
        exact ⟨mid, ⟨a, rfl, h⟩, k⟩
      · intro h
        obtain ⟨mid, ⟨a, rfl, h⟩, k⟩ := h
        exact ⟨a, rfl, mid, h, k⟩
    | gap spaced =>
      simp only [List.cons_append, spans_gap, ih]
      constructor
      · intro h
        obtain ⟨b, a, hb, rfl, mid, h, k⟩ := h
        exact ⟨mid, ⟨b, a, hb, rfl, h⟩, k⟩
      · intro h
        obtain ⟨mid, ⟨b, a, hb, rfl, h⟩, k⟩ := h
        exact ⟨b, a, hb, rfl, mid, h, k⟩

theorem Spans.append (h : Spans ps cs mid) (k : Spans qs mid rest) : Spans (ps ++ qs) cs rest :=
  spans_append.mpr ⟨mid, h, k⟩

/-- Which blank the canonical text has in a gap does not matter to what fills it. -/
theorem Spans.respaced (h : Spans (.gap spaced :: ps) cs rest) (other : Bool) :
    Spans (.gap other :: ps) cs rest := spans_gap.mpr (spans_gap.mp h)

theorem Spans.length_le (h : Spans ps cs rest) : rest.length ≤ cs.length := by
  obtain ⟨r, rfl, -⟩ := h
  simp

theorem spans_self {r : List Char} : Spans ps (r ++ rest) rest ↔ Fills ps r := by
  constructor
  · intro h
    obtain ⟨s, hs, h⟩ := h
    rwa [List.append_cancel_right hs]
  · intro h
    exact ⟨r, rfl, h⟩

/-- The first piece is a token that does not begin with a blank. -/
def Inked (ps : List Piece) : Prop := ∃ c t qs, ps = .token (c :: t) :: qs ∧ isBlank c = false

theorem Inked.append (h : Inked ps) (qs : List Piece) : Inked (ps ++ qs) := by
  obtain ⟨c, t, ps', rfl, hc⟩ := h
  exact ⟨c, t, ps' ++ qs, rfl, hc⟩

/-- All blanks in front of an inked form belong to its gap. -/
theorem spans_gap_of_inked (h : Inked ps) :
    Spans (.gap spaced :: ps) cs rest ↔ Spans ps (dropBlanks cs) rest := by
  obtain ⟨c, t, qs, rfl, hc⟩ := h
  constructor
  · intro h
    obtain ⟨b, mid, hb, rfl, hs⟩ := spans_gap.mp h
    obtain ⟨after, rfl, -⟩ := spans_token.mp hs
    rwa [dropBlanks_append hb, List.cons_append, dropBlanks_cons hc]
  · intro h
    obtain ⟨b, hb, eq⟩ := exists_blanks cs
    exact spans_gap.mpr ⟨b, _, hb, eq, h⟩

/-- The last piece is a token that does not end with a blank. -/
def InkedEnd (ps : List Piece) : Prop :=
  ∃ qs t c, ps = qs ++ [.token (t ++ [c])] ∧ isBlank c = false

theorem InkedEnd.append (h : InkedEnd qs) (ps : List Piece) : InkedEnd (ps ++ qs) := by
  obtain ⟨qs', t, c, rfl, hc⟩ := h
  exact ⟨ps ++ qs', t, c, by simp, hc⟩

theorem InkedEnd.cons (h : InkedEnd ps) (p : Piece) : InkedEnd (p :: ps) := h.append [p]

theorem Fills.head_not_blank {r : List Char} (h : Fills ps r) (hi : Inked ps) :
    ∃ c ∈ r.head?, isBlank c = false := by
  obtain ⟨c, t, qs, rfl, hc⟩ := hi
  cases h
  exact ⟨c, by simp, hc⟩

theorem Fills.last_not_blank {r : List Char} (h : Fills ps r) (hi : InkedEnd ps) :
    ∃ c ∈ r.getLast?, isBlank c = false := by
  obtain ⟨qs, t, c, rfl, hc⟩ := hi
  have whole : Spans (qs ++ [.token (t ++ [c])]) (r ++ []) [] := spans_self.mpr h
  obtain ⟨mid, ⟨r', hr, -⟩, ht⟩ := spans_append.mp whole
  obtain ⟨mid, rfl, hn⟩ := spans_token.mp ht
  obtain rfl := spans_nil.mp hn
  rw [List.append_nil] at hr
  exact ⟨c, by simp [hr], hc⟩

/-- A mark of one character, after blanks. -/
def sign (c : Char) : List Piece := [.gap false, .token [c]]

theorem spans_sign (hc : isBlank c = false) :
    Spans (sign c) cs rest ↔ mark? c cs = some rest := by
  rw [sign, spans_gap_of_inked ⟨c, [], [], rfl, hc⟩, spans_token]
  simp only [spans_nil, exists_eq_right, List.singleton_append, mark?]
  cases dropBlanks cs with
  | nil => simp
  | cons d ds =>
    by_cases h : d = c
    · simp [h]
    · simp [h]

theorem inkedEnd_sign {c : Char} (hc : isBlank c = false) : InkedEnd (sign c) :=
  ⟨[.gap false], [], c, rfl, hc⟩

/-- Items with the mark `sep` between them. -/
def separated (sep : Char) (spaced : Bool) : List (List Piece) → List Piece
  | [] => []
  | p :: ps => p ++ ps.flatMap fun q => sign sep ++ .gap spaced :: q

theorem separated_cons_cons (sep : Char) (spaced : Bool) (p q : List Piece)
    (qs : List (List Piece)) : separated sep spaced (p :: q :: qs) =
      p ++ (sign sep ++ .gap spaced :: separated sep spaced (q :: qs)) := by
  simp [separated]

/-- The pieces of the last item end a list of items. -/
theorem exists_separated_concat (sep : Char) (spaced : Bool) (pss : List (List Piece))
    (q : List Piece) : ∃ before, separated sep spaced (pss ++ [q]) = before ++ q := by
  cases pss with
  | nil => exact ⟨[], by simp [separated]⟩
  | cons p pss =>
    refine ⟨separated sep spaced (p :: pss) ++ (sign sep ++ [.gap spaced]), ?_⟩
    simp [separated]

theorem spans_separated_cons_cons {sep : Char} {s : Bool} {p q : List Piece}
    {qs : List (List Piece)} (hsep : isBlank sep = false) :
    Spans (.gap s :: separated sep spaced (p :: q :: qs)) cs rest ↔
      ∃ mid after, Spans (.gap s :: p) cs mid ∧ mark? sep mid = some after ∧
        Spans (.gap s :: separated sep spaced (q :: qs)) after rest := by
  rw [separated_cons_cons, ← List.cons_append, spans_append]
  simp only [spans_append, spans_sign hsep]
  constructor
  · intro h
    obtain ⟨mid, hp, after, hm, hs⟩ := h
    exact ⟨mid, after, hp, hm, hs.respaced s⟩
  · intro h
    obtain ⟨mid, after, hp, hm, hs⟩ := h
    exact ⟨mid, hp, after, hm, hs.respaced spaced⟩

theorem shown_separated (sep : Char) (spaced : Bool) (pss : List (List Piece)) :
    shown (separated sep spaced pss) =
      (sep :: (Piece.gap spaced).shown).intercalate (pss.map shown) := by
  induction pss with
  | nil => rfl
  | cons p pss ih =>
    cases pss with
    | nil => simp [separated]
    | cons q qs =>
      rw [separated_cons_cons, shown_append, shown_append, shown_cons, ih]
      simp [sign, Piece.shown]

end Annodoc.Grammar
