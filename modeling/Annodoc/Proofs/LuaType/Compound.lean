import Annodoc.Proofs.LuaType.Follow
import Annodoc.Proofs.LuaType.Rendering

/-!
# Reading maps, tables and functions

What a reader of types has to read, and that the readers of slots, maps, tables and functions read
it one level less deep than the types inside them.
-/

namespace Annodoc.LuaType
open Grammar Text

/-- The type `t` is written at the front of `cs`, and `rest` is what is left behind it. -/
structure Stands (limit : Nat) (t : LuaType) (cs rest : List Char) : Prop where
  admissible : Admissible limit t
  spans : Spans (.gap false :: t.pieces) cs rest
  stops : Stops limit t rest

def ReadsExactly (limit : Nat) : Prop :=
  ∀ cs t rest, readWithin limit cs = .ok (t, rest) ↔ Stands limit t cs rest

variable {limit : Nat} {t : LuaType} {cs rest : List Char}

/-- A reader of the names of slots: it reads `Fit` names, whatever may follow a word. -/
structure ReadsNames (nm : Reader String) (Fit : String → Prop) : Prop where
  fit : ∀ {cs s rest}, nm cs = .ok (s, rest) → Fit s ∧ cs = s.toList ++ rest
  reads : ∀ {s rest}, Fit s → IdentEnds rest → nm (s.toList ++ rest) = .ok (s, rest)
  inked : ∀ {s}, Fit s → ∃ c cs, s.toList = c :: cs ∧ isBlank c = false

theorem slot_eq_ok_iff (exactly : ReadsExactly limit) {nm : Reader String} {Fit : String → Prop}
    (names : ReadsNames nm Fit) {s : Slot LuaType} :
    slot (readWithin limit) nm cs = .ok (s, rest) ↔
      (Fit s.name ∧ Admissible limit s.type) ∧ Spans (.gap false :: piecesOfSlot s) cs rest ∧
        Stops limit s.type rest := by
  have inked : Fit s.name → Inked (piecesOfSlot s) := by
    intro hf
    obtain ⟨c, w, hs, hc⟩ := names.inked hf
    exact ⟨c, w, _, by rw [piecesOfSlot, Slot.pieces, hs]; rfl, hc⟩
  simp only [slot, bind_eq_ok_iff]
  constructor
  · intro h
    obtain ⟨⟨n, r₁⟩, hn, r₂, hm, ⟨ty, r₃⟩, ht, h⟩ := h
    obtain ⟨rfl, rfl⟩ : ⟨n, (questionMark r₁).1, ty⟩ = s ∧ r₃ = rest := by simpa using h
    obtain ⟨hf, hcs⟩ := names.fit hn
    obtain ⟨ha, hs, hstop⟩ := (exactly _ _ _).mp ht
    refine ⟨⟨hf, ha⟩, (spans_gap_of_inked (inked hf)).mpr ?_, hstop⟩
    have colon := (spans_sign rfl).mpr (mark_eq_ok_iff.mp hm)
    exact spans_token.mpr ⟨r₁, hcs,
      ((spans_questionMark r₁).append colon).append (hs.respaced true)⟩
  · intro h
    obtain ⟨⟨hf, ha⟩, hs, hstop⟩ := h
    rw [spans_gap_of_inked (inked hf), piecesOfSlot, Slot.pieces] at hs
    obtain ⟨r₁, hcs, hs⟩ := spans_token.mp hs
    obtain ⟨r₂, hs, ht⟩ := spans_append.mp hs
    obtain ⟨r₃, hq, hm⟩ := spans_append.mp hs
    have colon : mark? ':' r₃ = some r₂ := (spans_sign rfl).mp hm
    have hq' : questionMark r₁ = (s.optional, r₃) :=
      questionMark_eq hq fun _ => mark?_eq_none_of_ne colon (by decide)
    have hn := names.reads hf (identEnds_of_questionMark hq colon)
    refine ⟨(s.name, r₁), by rw [hcs]; exact hn, r₂, ?_, (s.type, rest), ?_, ?_⟩
    · simpa [hq'] using mark_eq_ok_iff.mpr colon
    · exact (exactly _ _ _).mpr ⟨ha, ht.respaced false, hstop⟩
    · simp [hq']

theorem readsNames_name : ReadsNames name IsName where
  fit h := ⟨(name_eq_ok_iff.mp h).1, (name_eq_ok_iff.mp h).2.1⟩
  reads h he := name_eq_ok_iff.mpr ⟨h, rfl, he⟩
  inked h := h.1.exists_cons

theorem readsNames_paramName : ReadsNames paramName IsParamName where
  fit := by
    intro cs s rest h
    unfold paramName at h
    split at h
    · obtain ⟨rfl, rfl⟩ : "..." = s ∧ _ = rest := by simpa using h
      exact ⟨.inl rfl, rfl⟩
    · obtain ⟨hn, hcs, -⟩ := name_eq_ok_iff.mp h
      exact ⟨.inr hn, hcs⟩
  reads := by
    rintro s rest (rfl | hn) he
    · rfl
    · unfold paramName
      split
      · rename_i r eq
        obtain ⟨c, w, hs, hc⟩ := hn.1.exists_ident
        rw [hs] at eq
        obtain ⟨rfl, -⟩ := List.cons.inj eq
        exact absurd hc (by decide)
      · exact name_eq_ok_iff.mpr ⟨hn, rfl, he⟩
  inked := by
    rintro s (rfl | hn)
    · exact ⟨'.', ['.', '.'], rfl, rfl⟩
    · exact hn.1.exists_cons

theorem mapTail_eq_ok_iff (exactly : ReadsExactly limit) :
    mapTail (readWithin limit) cs = .ok (t, rest) ↔
      ∃ k v, t = .map k v ∧ Admissible limit k ∧ Admissible limit v ∧
        Spans (mapPieces k.pieces v.pieces) cs rest := by
  simp only [mapTail, bind_eq_ok_iff, mark_eq_ok_iff]
  constructor
  · intro h
    obtain ⟨r₁, h₁, ⟨k, r₂⟩, hk, r₃, h₃, ⟨v, r₄⟩, hv, r₅, h₅, h⟩ := h
    obtain ⟨rfl, rfl⟩ : LuaType.map k v = t ∧ r₅ = rest := by simpa using h
    obtain ⟨ak, sk, -⟩ := (exactly _ _ _).mp hk
    obtain ⟨av, sv, -⟩ := (exactly _ _ _).mp hv
    have opened := (spans_sign rfl).mpr h₁
    have comma := (spans_sign rfl).mpr h₃
    have closed := (spans_sign rfl).mpr h₅
    exact ⟨k, v, rfl, ak, av,
      (((opened.append sk).append comma).append (sv.respaced true)).append closed⟩
  · intro h
    obtain ⟨k, v, rfl, ak, av, hs⟩ := h
    obtain ⟨r₄, hs, closed⟩ := spans_append.mp hs
    obtain ⟨r₃, hs, sv⟩ := spans_append.mp hs
    obtain ⟨r₂, hs, comma⟩ := spans_append.mp hs
    obtain ⟨r₁, opened, sk⟩ := spans_append.mp hs
    have h₁ := (spans_sign rfl).mp opened
    have h₃ := (spans_sign rfl).mp comma
    have h₅ := (spans_sign rfl).mp closed
    have hk : Stands limit k r₁ r₂ := ⟨ak, sk, stops_of_mark? h₃ (by decide) ak⟩
    have hv : Stands limit v r₃ r₄ := ⟨av, sv.respaced false, stops_of_mark? h₅ (by decide) av⟩
    exact ⟨r₁, h₁, (k, r₂), (exactly _ _ _).mpr hk, r₃, h₃, (v, r₄), (exactly _ _ _).mpr hv,
      rest, h₅, rfl⟩

/-- Slots between commas. A comma may stand behind the type of every slot. -/
theorem slots_eq_ok_iff_itemsStand (exactly : ReadsExactly limit) {nm : Reader String}
    {Fit : String → Prop} (names : ReadsNames nm Fit) {slots : List (Slot LuaType)} :
    items ',' (slot (readWithin limit) nm) cs = .ok (slots, rest) ↔
      ItemsStand ',' true piecesOfSlot (fun s => Fit s.name ∧ Admissible limit s.type)
        (fun _ => True) (fun s => Stops limit s.type) slots cs rest := by
  refine items_eq_ok_iff_itemsStand true rfl (fun _ _ _ => slot_eq_ok_iff exactly names) ?_
  rintro s rest ⟨-, ha⟩ hr
  obtain ⟨after, h⟩ := Option.ne_none_iff_exists'.mp hr
  exact iff_true_intro (stops_of_mark? h (by decide) ha)

/-- Slots between commas, before the mark that closes them. -/
theorem slots_eq_ok_iff (exactly : ReadsExactly limit) {nm : Reader String} {Fit : String → Prop}
    (names : ReadsNames nm Fit) {slots : List (Slot LuaType)} {c : Char} {after : List Char}
    (hm : mark? c rest = some after) (hc : c ∈ [')', '\x7d']) :
    items ',' (slot (readWithin limit) nm) cs = .ok (slots, rest) ↔
      slots ≠ [] ∧ (∀ s ∈ slots, Fit s.name ∧ Admissible limit s.type) ∧
        Spans (.gap false :: separated ',' true (slotPieces slots)) cs rest := by
  have hne : c ≠ ',' ∧ c ∈ [',', '>', ')', '\x7d', ']'] := by
    simp only [List.mem_cons, List.not_mem_nil, or_false] at hc
    rcases hc with rfl | rfl <;> decide
  rw [slots_eq_ok_iff_itemsStand exactly names, slotPieces_eq_map]
  constructor
  · intro h
    exact ⟨h.nonempty, h.fit, h.spans⟩
  · intro h
    obtain ⟨hn, hf, hs⟩ := h
    refine ⟨hn, hf, hs, fun _ _ => trivial, fun s hl => ?_, mark?_eq_none_of_ne hm hne.1⟩
    exact stops_of_mark? hm hne.2 (hf s (List.mem_of_getLast? hl)).2

theorem tableTail_eq_ok_iff (exactly : ReadsExactly limit) :
    tableTail (readWithin limit) cs = .ok (t, rest) ↔
      ∃ slots, t = .table slots ∧ Admissible (limit + 1) (.table slots) ∧
        Spans (tablePieces (slotPieces slots)) cs rest := by
  simp only [tableTail, bind_eq_ok_iff, mark_eq_ok_iff, admissible_table]
  constructor
  · intro h
    obtain ⟨⟨slots, mid⟩, hi, after, hm, h⟩ := h
    obtain ⟨rfl, rfl⟩ : LuaType.table slots = t ∧ after = rest := by simpa using h
    obtain ⟨hne, hf, hs⟩ := (slots_eq_ok_iff exactly readsNames_name hm (by decide)).mp hi
    exact ⟨slots, rfl, ⟨hne, hf⟩, hs.append ((spans_sign rfl).mpr hm)⟩
  · intro h
    obtain ⟨slots, rfl, ⟨hne, hf⟩, hs⟩ := h
    obtain ⟨mid, hs, closed⟩ := spans_append.mp hs
    have hm := (spans_sign rfl).mp closed
    exact ⟨(slots, mid), (slots_eq_ok_iff exactly readsNames_name hm (by decide)).mpr ⟨hne, hf, hs⟩,
      rest, hm, rfl⟩

/-- The name of a slot is no closing mark. -/
theorem mark?_paramName {s : String} (h : IsParamName s) (r : List Char) :
    mark? ')' (s.toList ++ r) = none := by
  rcases h with rfl | hn
  · rfl
  · exact mark?_word hn.1 (by decide) r

/-- The slots of a function, with the mark that closes them. -/
theorem params_eq_ok_iff (exactly : ReadsExactly limit) {ps : List (Slot LuaType)} :
    (∃ mid, params (readWithin limit) cs = .ok (ps, mid) ∧ mark? ')' mid = some rest) ↔
      (∀ s ∈ ps, IsParamName s.name ∧ Admissible limit s.type) ∧
        Spans ((.gap false :: separated ',' true (slotPieces ps)) ++ sign ')') cs rest := by
  constructor
  · intro h
    obtain ⟨mid, hp, hm⟩ := h
    have closed := (spans_sign rfl).mpr hm
    unfold params at hp
    split at hp
    · obtain ⟨rfl, rfl⟩ : [] = ps ∧ cs = mid := by simpa using hp
      exact ⟨by simp, spans_gap.mpr ⟨[], cs, blanks_nil, rfl, closed⟩⟩
    · obtain ⟨-, hf, hs⟩ := (slots_eq_ok_iff exactly readsNames_paramName hm (by decide)).mp hp
      exact ⟨hf, hs.append closed⟩
  · intro h
    obtain ⟨hf, hs⟩ := h
    cases ps with
    | nil =>
      obtain ⟨b, mid, hb, rfl, closed⟩ := spans_gap.mp hs
      have hm := (mark?_append hb ')' mid).trans ((spans_sign rfl).mp closed)
      exact ⟨b ++ mid, by simp [params, hm], hm⟩
    | cons s ps =>
      obtain ⟨mid, hs, closed⟩ := spans_append.mp hs
      have hm := (spans_sign rfl).mp closed
      have hi := (slots_eq_ok_iff exactly readsNames_paramName hm (by decide)).mpr
        ⟨by simp, hf, hs⟩
      have no : mark? ')' cs = none := by
        rw [slotPieces_eq_map] at hs
        obtain ⟨b, front, hb, hcs, ht⟩ := spans_gap.mp hs
        obtain ⟨r, hr, -⟩ := spans_token.mp ht
        rw [hcs, mark?_append hb, hr]
        exact mark?_paramName (hf s (by simp)).1 r
      exact ⟨mid, by simpa [params, no] using hi, hm⟩

theorem functionTail_eq_ok_iff (exactly : ReadsExactly limit) :
    functionTail (readWithin limit) cs = .ok (t, rest) ↔
      ∃ ps ret, t = .function ps ret ∧ Admissible (limit + 1) (.function ps ret) ∧
        Spans (functionPieces (slotPieces ps) (resultPieces ret)) cs rest ∧
        Ends (limit + 1) (.function ps ret) rest := by
  simp only [functionTail, bind_eq_ok_iff, mark_eq_ok_iff, admissible_function]
  constructor
  · intro h
    obtain ⟨r₁, opened, ⟨ps, r₂⟩, hp, r₃, hm, h⟩ := h
    obtain ⟨hf, hs⟩ := (params_eq_ok_iff exactly).mp ⟨r₂, hp, hm⟩
    have head := ((spans_sign rfl).mpr opened).append hs
    rw [← List.append_assoc] at head
    cases hc : mark? ':' r₃ with
    | none =>
      obtain ⟨rfl, rfl⟩ : LuaType.function ps none = t ∧ r₃ = rest := by simpa [hc] using h
      exact ⟨ps, none, rfl, ⟨hf, by simp⟩, head.append (spans_nil.mpr rfl), .function hc⟩
    | some r₄ =>
      simp only [hc, bind_eq_ok_iff] at h
      obtain ⟨⟨ret, r₅⟩, hr, h⟩ := h
      obtain ⟨rfl, rfl⟩ : LuaType.function ps (some ret) = t ∧ r₅ = rest := by simpa using h
      obtain ⟨ha, sr, hstop⟩ := (exactly _ _ _).mp hr
      have result := ((spans_sign rfl).mpr hc).append (sr.respaced true)
      exact ⟨ps, some ret, rfl, ⟨hf, by simpa using ha⟩, head.append result,
        .result hstop.noMember hstop.ends⟩
  · intro h
    obtain ⟨ps, ret, rfl, ⟨hf, ha⟩, hs, he⟩ := h
    obtain ⟨r₃, hs, result⟩ := spans_append.mp hs
    rw [List.append_assoc] at hs
    obtain ⟨r₁, opened, hs⟩ := spans_append.mp hs
    obtain ⟨r₂, hp, hm⟩ := (params_eq_ok_iff exactly).mpr ⟨hf, hs⟩
    refine ⟨r₁, (spans_sign rfl).mp opened, (ps, r₂), hp, r₃, hm, ?_⟩
    cases ret with
    | none =>
      obtain rfl := spans_nil.mp result
      cases he with
      | function hc => simp [hc]
    | some ret =>
      obtain ⟨r₄, colon, sr⟩ := spans_append.mp result
      cases he with
      | result hb he =>
        have hr := (exactly _ _ _).mpr ⟨ha ret rfl, sr.respaced false, hb, he⟩
        simp only [(spans_sign rfl).mp colon, bind_eq_ok_iff]
        exact ⟨(ret, rest), hr, rfl⟩

end Annodoc.LuaType
