import Annodoc.Proofs.LuaType.Word

/-!
# What the reader of types reads

The reader takes a type from the front of a text exactly where an admissible type is written there
and ends in front of what is left. The proof is an induction on the limit: every form is read one
level less deep than the types inside it.
-/

namespace Annodoc.LuaType
open Grammar Text

variable {limit : Nat} {t : LuaType} {cs rest : List Char}

theorem quotedText_eq_some_iff {q : Quote} : quotedText q cs = some (t, rest) ↔
    ∃ s, t = .literal q s ∧ q.char ∉ s.toList ∧ cs = s.toList ++ q.char :: rest := by
  constructor
  · intro h
    unfold quotedText at h
    split at h
    · exact absurd h (by simp)
    · rename_i c r eq
      obtain ⟨rfl, rfl⟩ : LuaType.literal q (String.ofList (cs.takeWhile (· ≠ q.char))) = t ∧
        r = rest := by simpa using h
      obtain rfl := eq_of_dropWhile_ne eq
      refine ⟨_, rfl, ?_⟩
      rw [String.toList_ofList]
      exact before_first_iff.mp ⟨rfl, eq⟩
  · intro h
    obtain ⟨s, rfl, hq, rfl⟩ := h
    obtain ⟨inside, closed⟩ :=
      before_first_iff.mpr ⟨hq, Eq.refl (s.toList ++ q.char :: rest)⟩
    simp only [quotedText, closed, inside, String.ofList_toList]

theorem single_sound (exactly : ReadsExactly limit)
    (h : single (readWithin limit) cs = .ok (t, rest)) :
    StandsSingle (limit + 1) t (dropBlanks cs) rest := by
  have quoted : ∀ q r, dropBlanks cs = Quote.char q :: r →
      (quotedText q r).elim (.error (⟨.aType, dropBlanks cs⟩ : Stop)) Except.ok = .ok (t, rest) →
      StandsSingle (limit + 1) t (dropBlanks cs) rest := by
    intro q r hcs h
    cases hq : quotedText q r with
    | none => simp [hq] at h
    | some found =>
      obtain rfl : found = (t, rest) := by simpa [hq] using h
      obtain ⟨s, rfl, hs, rfl⟩ := quotedText_eq_some_iff.mp hq
      exact ⟨rfl, admissible_literal.mpr hs,
        spans_token.mpr ⟨rest, by simp [hcs], spans_nil.mpr rfl⟩, .literal⟩
  unfold single at h
  simp only at h
  split at h
  · rename_i r hcs
    obtain ⟨slots, rfl, ha, hs⟩ := (tableTail_eq_ok_iff exactly).mp h
    exact ⟨rfl, ha, spans_token.mpr ⟨r, hcs, hs⟩, .table⟩
  · rename_i r hcs
    exact quoted .single r hcs h
  · rename_i r hcs
    exact quoted .double r hcs h
  · exact word_sound exactly h

/-- A type that begins with letters, digits or underscores is read as a word. -/
theorem single_of_word {nested : Reader LuaType} {w r : List Char} (hcs : dropBlanks cs = w ++ r)
    (hne : w ≠ []) (hw : ∀ c ∈ w, isIdent c = true) : single nested cs = word nested (w ++ r) := by
  obtain ⟨c, w, rfl⟩ := List.exists_cons_of_ne_nil hne
  have hc := hw c (by simp)
  have other : ∀ d, isIdent d = false → c ≠ d := by
    rintro d hd rfl
    rw [hd] at hc
    exact absurd hc (by simp)
  rw [single, hcs, List.cons_append]
  split
  · rename_i eq
    exact absurd (List.cons.inj eq).1 (other _ (by decide))
  · rename_i eq
    exact absurd (List.cons.inj eq).1 (other _ (by decide))
  · rename_i eq
    exact absurd (List.cons.inj eq).1 (other _ (by decide))
  · rfl

theorem single_complete (exactly : ReadsExactly limit)
    (h : StandsSingle (limit + 1) t (dropBlanks cs) rest) :
    single (readWithin limit) cs = .ok (t, rest) := by
  obtain ⟨hu, ha, hs, he⟩ := h
  cases t with
  | keyword k =>
    obtain ⟨r, hcs, hn⟩ := spans_token.mp hs
    obtain rfl := spans_nil.mp hn
    rw [single_of_word hcs (isWord_text k).1 (isWord_text k).2]
    exact word_keyword he
  | literal q s =>
    obtain ⟨r, hcs, hn⟩ := spans_token.mp hs
    obtain rfl := spans_nil.mp hn
    have hq : quotedText q (s.toList ++ q.char :: r) = some (.literal q s, r) :=
      quotedText_eq_some_iff.mpr ⟨s, rfl, admissible_literal.mp ha, rfl⟩
    have front : dropBlanks cs = q.char :: (s.toList ++ q.char :: r) := by simpa using hcs
    cases q <;> simp only [Quote.char] at front hq <;> simp [single, front, hq]
  | number digits =>
    obtain ⟨r, hcs, hn⟩ := spans_token.mp hs
    obtain rfl := spans_nil.mp hn
    obtain ⟨hne, hd⟩ := admissible_number.mp ha
    rw [single_of_word hcs hne fun c hc => isIdent_of_isDigit (hd c hc)]
    cases he with
    | number ends => exact word_number hne hd ends
  | named parts isList =>
    obtain ⟨two, words⟩ := admissible_named.mp ha
    obtain ⟨p, ps, rfl⟩ := List.exists_cons_of_length_pos (by omega : 0 < parts.length)
    obtain ⟨q, qs, rfl⟩ := List.exists_cons_of_length_pos (l := ps) (by simp at two; omega)
    have hp := words p (by simp)
    obtain ⟨r, hcs, hn⟩ := spans_token.mp hs
    obtain rfl := spans_nil.mp hn
    have asWord : ∀ after, dropBlanks cs = (".".intercalate (p :: q :: qs)).toList ++ after →
        single (readWithin limit) cs =
          word (readWithin limit) ((".".intercalate (p :: q :: qs)).toList ++ after) := by
      intro after front
      rw [toList_dotted, List.append_assoc] at front ⊢
      exact single_of_word front hp.1 hp.2
    cases he with
    | named ends unlisted =>
      have hb : brackets? r = none := by
        cases hb : brackets? r with
        | none => rfl
        | some r' => exact absurd (brackets?_eq_some_iff.mp hb) (unlisted r')
      rw [asWord r (by simpa using hcs), word_dotted words ends, hb, Option.elim_none]
    | namedList =>
      rw [asWord ('[' :: ']' :: r) (by simpa using hcs),
        word_dotted words (wordEnds_of_mark? (c := '[') rfl rfl (by decide))]
      rfl
  | list e =>
    obtain ⟨r, hcs, hn⟩ := spans_token.mp hs
    obtain rfl := spans_nil.mp hn
    rw [List.append_assoc] at hcs
    rw [single_of_word hcs (isWord_text e.val).1 (isWord_text e.val).2]
    cases he with
    | list ends => exact word_list e ends
  | map key value =>
    obtain ⟨r, hcs, hm⟩ := spans_token.mp hs
    obtain ⟨ak, av⟩ := admissible_map.mp ha
    have hw : IsWord "table" := by decide
    rw [single_of_word hcs hw.1 hw.2]
    exact word_map ((mapTail_eq_ok_iff exactly).mpr ⟨key, value, rfl, ak, av, hm⟩)
  | function ps ret =>
    obtain ⟨r, hcs, hf⟩ := spans_token.mp hs
    have hw : IsWord "fun" := by decide
    rw [single_of_word hcs hw.1 hw.2]
    exact word_function ((functionTail_eq_ok_iff exactly).mpr ⟨ps, ret, rfl, ha, hf, he⟩)
  | table slots =>
    obtain ⟨r, hcs, ht⟩ := spans_token.mp hs
    rw [single, hcs]
    exact (tableTail_eq_ok_iff exactly).mpr ⟨slots, rfl, ha, ht⟩
  | union ms => exact absurd hu (by simp [isUnion])

theorem single_eq_ok_iff (exactly : ReadsExactly limit) :
    single (readWithin limit) cs = .ok (t, rest) ↔
      (t.isUnion = false ∧ Admissible (limit + 1) t) ∧ Spans (.gap false :: t.pieces) cs rest ∧
        Ends (limit + 1) t rest := by
  constructor
  · intro h
    obtain ⟨hu, ha, hs, he⟩ := single_sound exactly h
    exact ⟨⟨hu, ha⟩, (spans_gap_of_inked ha.wellFormed.inked).mpr hs, he⟩
  · intro h
    obtain ⟨⟨hu, ha⟩, hs, he⟩ := h
    exact single_complete exactly ⟨hu, ha, (spans_gap_of_inked ha.wellFormed.inked).mp hs, he⟩

theorem ofAlternatives_of_two {ms : List LuaType} (h : 2 ≤ ms.length) :
    ofAlternatives ms = .union ms := by
  cases ms with
  | nil => simp at h
  | cons m ms =>
    cases ms with
    | nil => simp at h
    | cons m' ms => rfl

/-- Members between bars, as a type is made of them. -/
def MembersStand (limit : Nat) (ms : List LuaType) (cs rest : List Char) : Prop :=
  ItemsStand '|' false pieces (fun m => m.isUnion = false ∧ Admissible limit m)
    (fun m => m.hasResult = false) (Ends limit) ms cs rest

theorem stands_of_membersStand {ms : List LuaType} (h : MembersStand (limit + 1) ms cs rest) :
    Stands (limit + 1) (ofAlternatives ms) cs rest := by
  have hs := h.spans
  rw [← pieces_ofAlternatives h.nonempty] at hs
  cases ms with
  | nil => exact absurd rfl h.nonempty
  | cons m ms =>
    cases ms with
    | nil => exact ⟨(h.fit m (by simp)).2, hs, h.ended, h.last m (by simp)⟩
    | cons m' ms =>
      exact ⟨admissible_union.mpr ⟨by simp, h.fit, h.inner⟩, hs, h.ended, .union h.last⟩

theorem membersStand_of_stands (h : Stands (limit + 1) t cs rest) :
    ∃ ms, MembersStand (limit + 1) ms cs rest ∧ ofAlternatives ms = t := by
  obtain ⟨ha, hs, hb, he⟩ := h
  cases hu : t.isUnion with
  | false =>
    refine ⟨[t], itemsStand_singleton.mpr ⟨⟨⟨hu, ha⟩, hs, he⟩, hb⟩, ?_⟩
    rfl
  | true =>
    cases t with
    | union ms =>
      obtain ⟨two, fit, inner⟩ := admissible_union.mp ha
      have eq := ofAlternatives_of_two two
      have hne : ms ≠ [] := by
        intro eq
        subst eq
        simp at two
      rw [← eq, pieces_ofAlternatives hne] at hs
      cases he with
      | union last => exact ⟨ms, ⟨hne, fit, hs, inner, last, hb⟩, eq⟩
    | _ => simp [isUnion] at hu

theorem readsExactly_succ (exactly : ReadsExactly limit) : ReadsExactly (limit + 1) := by
  intro cs t rest
  -- Members share the limit of their union; only what stands inside of them is less deep.
  have members : ∀ ms, items '|' (single (readWithin limit)) cs = .ok (ms, rest) ↔
      MembersStand (limit + 1) ms cs rest := fun ms =>
    items_eq_ok_iff_itemsStand false rfl (fun _ _ _ => single_eq_ok_iff exactly)
      fun _ _ ht hm => ends_before_member_iff ht hm
  simp only [readWithin, bind_eq_ok_iff]
  constructor
  · intro h
    obtain ⟨⟨ms, r⟩, hi, h⟩ := h
    obtain ⟨rfl, rfl⟩ : ofAlternatives ms = t ∧ r = rest := by simpa using h
    exact stands_of_membersStand ((members ms).mp hi)
  · intro h
    obtain ⟨ms, hms, rfl⟩ := membersStand_of_stands h
    exact ⟨(ms, rest), (members ms).mpr hms, rfl⟩

/-- The reader takes a type from the front of a text exactly where the type is written there, is
admissible, and ends in front of what is left. -/
theorem readsExactly (limit : Nat) : ReadsExactly limit := by
  induction limit with
  | zero =>
    intro cs t rest
    constructor
    · intro h
      simp [readWithin] at h
    · intro h
      exact absurd h.admissible not_admissible_zero
  | succ limit ih => exact readsExactly_succ ih

end Annodoc.LuaType
