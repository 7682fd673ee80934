import Annodoc.Proofs.LuaType.Limits

/-!
# Failures behind a viable prefix

A reader that fails, and not for want of depth, points behind a text that some type begins with. For
every form there is a way on from each of its tokens, and the part that was read so far fills the
pieces up to there. So the text in front of a failure can be completed to the text of a type.
-/

namespace Annodoc
open Text

namespace Grammar
variable {ps qs : List Piece} {cs mid rest r s : List Char} {c : Char} {spaced : Bool}

/-! ## Beginnings of written forms -/

/-- The part of `cs` before `rest` begins a text that fills the pieces. -/
def Opens (ps : List Piece) (cs rest : List Char) : Prop :=
  ∃ before after, cs = before ++ rest ∧ Fills ps (before ++ after)

theorem Fills.append (h : Fills ps r) (k : Fills qs s) : Fills (ps ++ qs) (r ++ s) := by
  induction h with
  | nil => exact k
  | token _ ih =>
    rw [List.cons_append, List.append_assoc]
    exact .token ih
  | gap blank _ ih =>
    rw [List.cons_append, List.append_assoc]
    exact .gap blank ih

/-- Before anything is taken, every form can be completed. -/
theorem opens_self (ps : List Piece) (cs : List Char) : Opens ps cs cs :=
  ⟨[], shown ps, rfl, fills_shown ps⟩

theorem Spans.opens (h : Spans ps cs rest) : Opens ps cs rest := by
  obtain ⟨r, rfl, fills⟩ := h
  exact ⟨r, [], rfl, by rwa [List.append_nil]⟩

theorem Opens.append (h : Opens ps cs rest) (qs : List Piece) : Opens (ps ++ qs) cs rest := by
  obtain ⟨before, after, rfl, fills⟩ := h
  refine ⟨before, after ++ shown qs, rfl, ?_⟩
  rw [← List.append_assoc]
  exact fills.append (fills_shown qs)

theorem Spans.append_opens (h : Spans ps cs mid) (k : Opens qs mid rest) :
    Opens (ps ++ qs) cs rest := by
  obtain ⟨r, rfl, fills⟩ := h
  obtain ⟨before, after, rfl, rest⟩ := k
  refine ⟨r ++ before, after, by simp, ?_⟩
  rw [List.append_assoc]
  exact fills.append rest

theorem Opens.token (h : Opens ps cs rest) (t : List Char) :
    Opens (.token t :: ps) (t ++ cs) rest := by
  obtain ⟨before, after, rfl, fills⟩ := h
  refine ⟨t ++ before, after, by simp, ?_⟩
  rw [List.append_assoc]
  exact .token fills

/-- Blanks that are skipped fill a gap. -/
theorem Opens.gap (h : Opens ps (dropBlanks cs) rest) (spaced : Bool) :
    Opens (.gap spaced :: ps) cs rest := by
  obtain ⟨b, blank, split⟩ := exists_blanks cs
  obtain ⟨before, after, eq, fills⟩ := h
  refine ⟨b ++ before, after, ?_, ?_⟩
  · rw [split, eq, List.append_assoc]
  · rw [List.append_assoc]
    exact .gap blank fills

theorem Opens.respaced (h : Opens (.gap spaced :: ps) cs rest) (other : Bool) :
    Opens (.gap other :: ps) cs rest := by
  obtain ⟨before, after, rfl, fills⟩ := h
  refine ⟨before, after, rfl, ?_⟩
  generalize before ++ after = text at fills ⊢
  cases fills with
  | gap blank fills => exact .gap blank fills

/-- A mark that is missing could stand where it is missed. -/
theorem opens_sign {stop : Stop} (h : mark c cs = .error stop) : Opens (sign c) cs stop.rest := by
  rw [mark_error h]
  exact (opens_self [.token [c]] (dropBlanks cs)).gap false

/-! ## Items -/

/-- A reader that fails, and not for want of depth, fails behind what it has begun. -/
def FailsBehind {α : Type} (reader : Reader α) (Begun : List Char → List Char → Prop) : Prop :=
  ∀ cs stop, reader cs = .error stop → ¬ stop.TooDeep → Begun cs stop.rest

section Items
variable {α : Type} {sep : Char} {item : Reader α} {pieces : α → List Piece} {Fit Inner : α → Prop}

/-- Items with the mark `sep` between them, begun before `rest`. -/
def ItemsBegun (sep : Char) (spaced : Bool) (pieces : α → List Piece) (Fit Inner : α → Prop)
    (cs rest : List Char) : Prop :=
  ∃ xs, xs ≠ [] ∧ (∀ x ∈ xs, Fit x) ∧ (∀ x ∈ xs.dropLast, Inner x) ∧
    Opens (.gap false :: separated sep spaced (xs.map pieces)) cs rest

theorem itemsBegun_singleton {x : α} (fit : Fit x) (h : Opens (.gap false :: pieces x) cs rest) :
    ItemsBegun sep spaced pieces Fit Inner cs rest :=
  ⟨[x], by simp, by simpa using fit, by simp, by simpa [separated] using h⟩

theorem itemsBegun_cons (hsep : isBlank sep = false) {x : α} {after : List Char} (fit : Fit x)
    (inner : Inner x) (first : Spans (.gap false :: pieces x) cs mid)
    (between : mark? sep mid = some after)
    (h : ItemsBegun sep spaced pieces Fit Inner after rest) :
    ItemsBegun sep spaced pieces Fit Inner cs rest := by
  obtain ⟨xs, nonempty, fits, inners, opens⟩ := h
  obtain ⟨y, ys, rfl⟩ := List.exists_cons_of_ne_nil nonempty
  refine ⟨x :: y :: ys, by simp, List.forall_mem_cons.mpr ⟨fit, fits⟩,
    List.forall_mem_cons.mpr ⟨inner, inners⟩, ?_⟩
  have mark := (spans_sign hsep).mpr between
  rw [List.map_cons, List.map_cons, separated_cons_cons, ← List.cons_append]
  exact first.append_opens (mark.append_opens (opens.respaced spaced))

/-- What an item that is read says of itself. -/
def ItemsRead (sep : Char) (item : Reader α) (pieces : α → List Piece) (Fit Inner : α → Prop) :
    Prop :=
  ∀ cs x rest, item cs = .ok (x, rest) →
    Fit x ∧ Spans (.gap false :: pieces x) cs rest ∧ (mark? sep rest ≠ none → Inner x)

/-- Further items fail behind a mark and behind what is begun there. -/
theorem moreItems_failsBehind (hsep : isBlank sep = false)
    (reads : ItemsRead sep item pieces Fit Inner)
    (fails : FailsBehind item fun cs rest => ∃ x, Fit x ∧ Opens (.gap false :: pieces x) cs rest)
    (rounds : Nat) : FailsBehind (moreItems sep item rounds) fun cs rest =>
      ∃ after, mark? sep cs = some after ∧ ItemsBegun sep spaced pieces Fit Inner after rest := by
  induction rounds with
  | zero =>
    intro cs stop h
    cases h
  | succ rounds ih =>
    intro cs stop h shallow
    rw [moreItems] at h
    cases between : mark? sep cs with
    | none => simp [between] at h
    | some after =>
      refine ⟨after, rfl, ?_⟩
      simp only [between, bind_eq_error_iff] at h
      rcases h with failed | ⟨⟨x, mid⟩, read, further | ⟨_, -, h⟩⟩
      · obtain ⟨x, fit, opens⟩ := fails after stop failed shallow
        exact itemsBegun_singleton fit opens
      · obtain ⟨next, between, begun⟩ := ih mid stop further shallow
        obtain ⟨fit, spans, inner⟩ := reads after x mid read
        exact itemsBegun_cons hsep fit (inner (by simp [between])) spans between begun
      · cases h

theorem items_failsBehind (hsep : isBlank sep = false)
    (reads : ItemsRead sep item pieces Fit Inner)
    (fails : FailsBehind item fun cs rest => ∃ x, Fit x ∧ Opens (.gap false :: pieces x) cs rest) :
    FailsBehind (items sep item) (ItemsBegun sep spaced pieces Fit Inner) := by
  intro cs stop h shallow
  simp only [items, bind_eq_error_iff] at h
  rcases h with failed | ⟨⟨x, mid⟩, read, further | ⟨_, -, h⟩⟩
  · obtain ⟨x, fit, opens⟩ := fails cs stop failed shallow
    exact itemsBegun_singleton fit opens
  · obtain ⟨next, between, begun⟩ :=
      moreItems_failsBehind hsep reads fails mid.length mid stop further shallow
    obtain ⟨fit, spans, inner⟩ := reads cs x mid read
    exact itemsBegun_cons hsep fit (inner (by simp [between])) spans between begun
  · cases h

end Items
end Grammar

namespace LuaType
open Grammar
variable {limit : Nat} {cs rest : List Char}

/-! ## Forms of a type -/

/-- A type is begun before `rest`. -/
def Begun (cs rest : List Char) : Prop :=
  ∃ t : LuaType, t.WellFormed ∧ Opens (.gap false :: t.pieces) cs rest

/-- A slot of a fit name is begun before `rest`. -/
def SlotBegun (Fit : String → Prop) (cs rest : List Char) : Prop :=
  ∃ s : Slot LuaType, (Fit s.name ∧ s.type.WellFormed) ∧
    Opens (.gap false :: piecesOfSlot s) cs rest

theorem paramName_error {s : Stop} (h : paramName cs = .error s) : s = ⟨.aName, cs⟩ := by
  unfold paramName at h
  split at h
  · cases h
  · exact name_error h

theorem slot_failsBehind {nm : Reader String} {Fit : String → Prop} (names : ReadsNames nm Fit)
    (here : ∀ {cs s}, nm cs = .error s → s = ⟨.aName, cs⟩) (some : Fit "a")
    (nested : FailsBehind (readWithin limit) Begun) :
    FailsBehind (slot (readWithin limit) nm) (SlotBegun Fit) := by
  intro cs stop h shallow
  simp only [slot, bind_eq_error_iff] at h
  rcases h with noName | ⟨⟨name, behind⟩, named, h⟩
  · rw [here noName]
    exact ⟨⟨"a", false, .keyword .nil⟩, ⟨some, .keyword .nil⟩, (opens_self _ _).gap false⟩
  obtain ⟨fit, front⟩ := names.fit named
  have question := spans_questionMark behind
  -- Behind the name, any type can follow the colon.
  have slot {t : LuaType} (ht : t.WellFormed)
      (opens : Opens ((if (questionMark behind).1 then sign '?' else []) ++ sign ':' ++
        .gap true :: t.pieces) behind stop.rest) : SlotBegun Fit cs stop.rest := by
    refine ⟨⟨name, (questionMark behind).1, t⟩, ⟨fit, ht⟩, Opens.gap ?_ false⟩
    rw [front]
    exact opens.token _
  rcases h with noColon | ⟨after, colon, failed | ⟨_, -, h⟩⟩
  · exact slot (.keyword .nil) ((question.append_opens (opens_sign noColon)).append _)
  · obtain ⟨t, ht, opens⟩ := nested after stop failed shallow
    have head := question.append ((spans_sign rfl).mpr (mark_eq_ok_iff.mp colon))
    exact slot ht (head.append_opens (opens.respaced true))
  · cases h

theorem slots_failsBehind {nm : Reader String} {Fit : String → Prop} (names : ReadsNames nm Fit)
    (here : ∀ {cs s}, nm cs = .error s → s = ⟨.aName, cs⟩) (some : Fit "a")
    (nested : FailsBehind (readWithin limit) Begun) :
    FailsBehind (items ',' (slot (readWithin limit) nm)) (ItemsBegun ',' true piecesOfSlot
      (fun s => Fit s.name ∧ s.type.WellFormed) fun _ => True) := by
  refine items_failsBehind rfl ?_ (slot_failsBehind names here some nested)
  intro cs s rest read
  obtain ⟨⟨fit, admissible⟩, spans, -⟩ := (slot_eq_ok_iff (readsExactly limit) names).mp read
  exact ⟨⟨fit, admissible.wellFormed⟩, spans, fun _ => trivial⟩

theorem tableTail_failsBehind (nested : FailsBehind (readWithin limit) Begun) :
    FailsBehind (tableTail (readWithin limit)) fun cs rest =>
      ∃ slots, (table slots).WellFormed ∧ Opens (tablePieces (slotPieces slots)) cs rest := by
  intro cs stop h shallow
  have wellFormed {slots : List (Slot LuaType)} (nonempty : slots ≠ [])
      (fits : ∀ s ∈ slots, IsName s.name ∧ s.type.WellFormed) : (table slots).WellFormed :=
    .table slots nonempty (fun s mem => (fits s mem).1) fun s mem => (fits s mem).2
  simp only [tableTail, bind_eq_error_iff] at h
  rcases h with failed | ⟨⟨slots, mid⟩, read, unclosed | ⟨_, -, h⟩⟩
  · obtain ⟨slots, nonempty, fits, -, opens⟩ :=
      slots_failsBehind readsNames_name name_error (by decide) nested cs stop failed shallow
    rw [← slotPieces_eq_map] at opens
    exact ⟨slots, wellFormed nonempty fits, opens.append _⟩
  · have stand := (slots_eq_ok_iff_itemsStand (readsExactly limit) readsNames_name).mp read
    have spans := stand.spans
    rw [← slotPieces_eq_map] at spans
    refine ⟨slots, wellFormed stand.nonempty fun s mem => ?_,
      spans.append_opens (opens_sign unclosed)⟩
    exact ⟨(stand.fit s mem).1, (stand.fit s mem).2.wellFormed⟩
  · cases h

/-- Slots of a function that are read, closed or not. -/
theorem params_read {ps : List (Slot LuaType)}
    (h : params (readWithin limit) cs = .ok (ps, rest)) :
    (∀ s ∈ ps, IsParamName s.name ∧ s.type.WellFormed) ∧
      Spans (.gap false :: separated ',' true (slotPieces ps)) cs rest := by
  unfold params at h
  split at h
  · obtain ⟨rfl, rfl⟩ : [] = ps ∧ cs = rest := by simpa using h
    exact ⟨by simp, spans_gap.mpr ⟨[], cs, blanks_nil, rfl, spans_nil.mpr rfl⟩⟩
  · have stand := (slots_eq_ok_iff_itemsStand (readsExactly limit) readsNames_paramName).mp h
    have spans := stand.spans
    rw [← slotPieces_eq_map] at spans
    exact ⟨fun s mem => ⟨(stand.fit s mem).1, (stand.fit s mem).2.wellFormed⟩, spans⟩

theorem params_failsBehind (nested : FailsBehind (readWithin limit) Begun) :
    FailsBehind (params (readWithin limit)) fun cs rest =>
      ∃ ps, (∀ s ∈ ps, IsParamName s.name ∧ s.type.WellFormed) ∧
        Opens (.gap false :: separated ',' true (slotPieces ps)) cs rest := by
  intro cs stop h shallow
  unfold params at h
  split at h
  · cases h
  · obtain ⟨ps, -, fits, -, opens⟩ :=
      slots_failsBehind readsNames_paramName paramName_error (.inr (by decide)) nested cs stop h
        shallow
    rw [← slotPieces_eq_map] at opens
    exact ⟨ps, fits, opens⟩

theorem functionTail_failsBehind (nested : FailsBehind (readWithin limit) Begun) :
    FailsBehind (functionTail (readWithin limit)) fun cs rest =>
      ∃ ps ret, (function ps ret).WellFormed ∧
        Opens (functionPieces (slotPieces ps) (resultPieces ret)) cs rest := by
  intro cs stop h shallow
  have wellFormed {ps : List (Slot LuaType)} {ret : Option LuaType}
      (fits : ∀ s ∈ ps, IsParamName s.name ∧ s.type.WellFormed) (result : ∀ t ∈ ret, t.WellFormed) :
      (function ps ret).WellFormed :=
    .function ps ret (fun s mem => (fits s mem).1) (fun s mem => (fits s mem).2) result
  simp only [functionTail, bind_eq_error_iff] at h
  rcases h with unopened | ⟨inside, opened, h⟩
  · have opens := opens_sign unopened
    exact ⟨[], none, wellFormed (by simp) (by simp), ((opens.append _).append _).append _⟩
  have opening := (spans_sign rfl).mpr (mark_eq_ok_iff.mp opened)
  rcases h with failed | ⟨⟨ps, mid⟩, read, h⟩
  · obtain ⟨ps, fits, opens⟩ := params_failsBehind nested inside stop failed shallow
    exact ⟨ps, none, wellFormed fits (by simp), ((opening.append_opens opens).append _).append _⟩
  obtain ⟨fits, spans⟩ := params_read read
  rcases h with unclosed | ⟨after, closed, h⟩
  · have opens := (opening.append spans).append_opens (opens_sign unclosed)
    exact ⟨ps, none, wellFormed fits (by simp), opens.append _⟩
  have head := (opening.append spans).append ((spans_sign rfl).mpr (mark_eq_ok_iff.mp closed))
  cases colon : mark? ':' after with
  | none => simp [colon] at h
  | some behind =>
    simp only [colon, bind_eq_error_iff] at h
    rcases h with failed | ⟨_, -, h⟩
    · obtain ⟨t, ht, opens⟩ := nested behind stop failed shallow
      have result := ((spans_sign rfl).mpr colon).append_opens (opens.respaced true)
      exact ⟨ps, some t, wellFormed fits (by simpa using ht), head.append_opens result⟩
    · cases h

/-- A type that is no union is begun before `rest`, without blanks in front. -/
def SingleBegun (cs rest : List Char) : Prop :=
  ∃ t : LuaType, (t.isUnion = false ∧ t.WellFormed) ∧ Opens t.pieces cs rest

/-- Where nothing is taken, a keyword can stand. -/
theorem singleBegun_self (cs : List Char) : SingleBegun cs cs :=
  ⟨.keyword .nil, ⟨rfl, .keyword .nil⟩, opens_self _ cs⟩

/-- What follows a keyword fails for want of depth only. -/
theorem tooDeep_of_keywordTail {nested : Reader LuaType} {k : Keyword} {stop : Stop}
    (h : keywordTail nested k cs = .error stop) : stop.TooDeep := by
  unfold keywordTail at h
  split at h
  · cases h
  · split at h
    · split at h
      · cases h
      · split at h
        · next deep =>
          cases h
          exact deep
        · cases h
    · cases h

theorem word_failsBehind (nested : FailsBehind (readWithin limit) Begun) :
    FailsBehind (word (readWithin limit)) SingleBegun := by
  intro cs stop h shallow
  have front := identPart_append_afterIdent cs
  simp only [word] at h
  split at h
  · split at h
    · exact absurd (tooDeep_of_keywordTail h) shallow
    · split at h
      · next isFun =>
        obtain ⟨ps, ret, ht, opens⟩ := functionTail_failsBehind nested _ stop h shallow
        have word : identPart cs = "fun".toList := by rw [← isFun, String.toList_ofList]
        refine ⟨function ps ret, ⟨rfl, ht⟩, ?_⟩
        rw [← front, word]
        exact opens.token _
      · split at h
        · cases h
        · cases h
          exact singleBegun_self cs
  · split at h
    · cases h
      exact singleBegun_self cs
    · split at h
      · cases h
      · cases h

theorem single_failsBehind (nested : FailsBehind (readWithin limit) Begun) :
    FailsBehind (single (readWithin limit)) fun cs rest =>
      ∃ t : LuaType, (t.isUnion = false ∧ t.WellFormed) ∧ Opens (.gap false :: t.pieces) cs rest := by
  intro cs stop h shallow
  obtain ⟨t, fit, opens⟩ : SingleBegun (dropBlanks cs) stop.rest := by
    have quoted {found : Option (LuaType × List Char)}
        (h : found.elim (.error (⟨.aType, dropBlanks cs⟩ : Stop)) Except.ok = .error stop) :
        SingleBegun (dropBlanks cs) stop.rest := by
      cases found with
      | some found => cases h
      | none =>
        cases h
        exact singleBegun_self _
    simp only [single] at h
    split at h
    · next rest brace =>
      obtain ⟨slots, ht, opens⟩ := tableTail_failsBehind nested rest stop h shallow
      rw [brace]
      exact ⟨table slots, ⟨rfl, ht⟩, opens.token ['\x7b']⟩
    · exact quoted h
    · exact quoted h
    · exact word_failsBehind nested _ stop h shallow
  exact ⟨t, fit, opens.gap false⟩

/-! ## Types -/

theorem wellFormed_ofAlternatives {ms : List LuaType} (nonempty : ms ≠ [])
    (fits : ∀ m ∈ ms, m.isUnion = false ∧ m.WellFormed)
    (inner : ∀ m ∈ ms.dropLast, m.hasResult = false) : (ofAlternatives ms).WellFormed := by
  match ms with
  | [m] => exact (fits m (by simp)).2
  | m :: m' :: ms =>
    exact .union _ (by simp) (fun m mem => (fits m mem).1) inner fun m mem => (fits m mem).2

/-- Members that were read have no result, since further ones follow, so they make a union with the
one that was begun. -/
theorem readWithin_failsBehind (limit : Nat) : FailsBehind (readWithin limit) Begun := by
  induction limit with
  | zero =>
    intro cs stop h shallow
    cases h
    exact absurd rfl shallow
  | succ limit ih =>
    intro cs stop h shallow
    have reads : ItemsRead '|' (single (readWithin limit)) pieces
        (fun t => t.isUnion = false ∧ t.WellFormed) (fun t => t.hasResult = false) := by
      intro cs t rest read
      obtain ⟨⟨flat, admissible⟩, spans, ends⟩ := (single_eq_ok_iff (readsExactly limit)).mp read
      exact ⟨⟨flat, admissible.wellFormed⟩, spans, fun more =>
        (ends_before_member_iff ⟨flat, admissible⟩ more).mp ends⟩
    simp only [readWithin, bind_eq_error_iff] at h
    rcases h with failed | ⟨_, -, h⟩
    · obtain ⟨ms, nonempty, fits, inner, opens⟩ :=
        items_failsBehind rfl reads (single_failsBehind ih) cs stop failed shallow
      rw [← pieces_ofAlternatives nonempty] at opens
      exact ⟨ofAlternatives ms, wellFormed_ofAlternatives nonempty fits inner, opens⟩
    · cases h

/-- The text can be completed to one that is read as a type wherever there is room for it. -/
def Viable (front : List Char) : Prop :=
  ∃ after t, ∃ least, ∀ limit, least ≤ limit → readWholeWithin limit (front ++ after) = .ok t

theorem viable_of_fills {t : LuaType} {front after : List Char} (ht : t.WellFormed)
    (h : Fills (.gap false :: t.pieces) (front ++ after)) : Viable front := by
  refine ⟨after, t, t.nesting + 1, fun limit room => ?_⟩
  generalize front ++ after = text at h ⊢
  cases h with
  | @gap _ b _ r blank renders =>
    exact readWholeWithin_eq_ok_iff.mpr ⟨⟨ht, room⟩, b, r, [], by simp, blank, blanks_nil, renders⟩

theorem viable_of_read {t : LuaType} (h : readWithin limit cs = .ok (t, rest)) :
    ∃ front, cs = front ++ dropBlanks rest ∧ Viable front := by
  obtain ⟨admissible, -, b, r, rfl, blank, renders⟩ := readWithin_eq_ok_iff.mp h
  obtain ⟨b', blank', split⟩ := exists_blanks rest
  refine ⟨b ++ (r ++ b'), ?_, [], t, limit, fun larger room => ?_⟩
  · rw [List.append_assoc, List.append_assoc, ← split]
  · have shallow := admissible.shallow
    exact readWholeWithin_eq_ok_iff.mpr ⟨⟨admissible.wellFormed, by omega⟩, b, r, b', by simp,
      blank, blank', renders⟩

/-- The failure of a reading of `cs`, which stands behind `skipped`. It points behind a viable text
and not at a blank that is skipped first, and it shows what is left from there. -/
def BehindViable (skipped cs : List Char) (e : Mismatch) : Prop :=
  ∃ front rest, cs = front ++ rest ∧ Viable front ∧
    e.position = byteLength (skipped ++ front) ∧ cs.takeWhile isBlank <+: front ∧
    e.found = if isEmptyText rest then .endOfLine else .snippet (rest.take 16)

theorem behindViable_inText (stop : Stop) {front skipped : List Char} (split : cs = front ++ stop.rest)
    (viable : Viable front) (inside : stop.rest <:+ dropBlanks cs) :
    BehindViable skipped cs (stop.inText (skipped ++ cs)) := by
  refine ⟨front, stop.rest, split, viable, ?_, ?_, rfl⟩
  · rw [split, ← List.append_assoc]
    exact Stop.position_inText _ _
  · obtain ⟨part, eq⟩ := inside
    have whole : front ++ stop.rest = cs.takeWhile isBlank ++ part ++ stop.rest := by
      rw [← split, List.append_assoc, eq]
      exact List.takeWhile_append_dropWhile.symm
    exact ⟨part, (List.append_cancel_right whole).symm⟩

theorem behindViable_of_readWithin {stop : Stop} (skipped : List Char)
    (h : readWithin limit cs = .error stop) (shallow : ¬ stop.TooDeep) :
    BehindViable skipped cs (stop.inText (skipped ++ cs)) := by
  obtain ⟨t, ht, front, after, split, fills⟩ := readWithin_failsBehind limit cs stop h shallow
  have follows := AtOffset.typeWithin_follows limit (List.suffix_refl cs)
  exact behindViable_inText stop split (viable_of_fills ht fills) (follows.stop_suffix stop h)

/-- A text that goes on behind its type fails there, and what it goes on from is a type. -/
theorem behindViable_of_readWholeWithin {stop : Stop} (h : readWholeWithin limit cs = .error stop)
    (shallow : ¬ stop.TooDeep) : BehindViable [] cs (stop.inText cs) := by
  simp only [readWholeWithin, bind_eq_error_iff] at h
  rcases h with failed | ⟨⟨t, rest⟩, read, h⟩
  · exact behindViable_of_readWithin [] failed shallow
  · split at h
    · cases h
    · cases h
      obtain ⟨front, split, viable⟩ := viable_of_read read
      have follows := AtOffset.typeWithin_follows limit (List.suffix_refl cs)
      have inside := (dropBlanks_suffix rest).trans (follows.left_suffix _ read)
      exact behindViable_inText ⟨.endOfType, dropBlanks rest⟩ split viable inside

/-- A failure that is not for want of depth points behind a viable text: with something behind it,
what stands before the failure is a type for every limit that is high enough. So it is with a whole
text, and with the text from any position on, whether its rules are tried at offsets or not. -/
theorem failure_behind_viable :
    (∀ limit text e, parseWithin limit text = .error e → e.expected ≠ .shallowerType →
      BehindViable [] text.toList e) ∧
    (∀ limit text position e, parseAtWithin? limit text position = some (.error e) →
      e.expected ≠ .shallowerType → ∃ skipped cs, text = skipped ++ cs ∧
        byteLength skipped = position ∧ BehindViable skipped cs e) ∧
    (∀ limit text position,
      (AtOffset.typeWithin text limit position).run = parseAtWithin? limit text position) ∧
    parse = parseWithin depthLimit ∧ parseAt? = parseAtWithin? depthLimit := by
  refine ⟨fun limit text e h shallow => ?_, fun limit text position e h shallow => ?_,
    AtOffset.typeWithin_eq, rfl, rfl⟩
  · obtain ⟨stop, failed, rfl⟩ := mapError_eq_error_iff.mp h
    exact behindViable_of_readWholeWithin failed shallow
  · simp only [parseAtWithin?, Option.map_eq_some_iff, afterBytes?_eq_some_iff] at h
    obtain ⟨cs, ⟨skipped, rfl, rfl⟩, h⟩ := h
    refine ⟨skipped, cs, rfl, rfl, ?_⟩
    cases read : readWithin limit cs with
    | ok found => simp [read] at h
    | error stop =>
      obtain rfl : stop.inText (skipped ++ cs) = e := by simpa [read] using h
      exact behindViable_of_readWithin skipped read shallow

/-- A colon is wanted after the name of a slot, behind a map that is read to its end. -/
theorem failure_behind_viable_colon :
    let text := "é: fun(a: table<string, nil>, b c)".toList
    let e : Mismatch := ⟨33, .token ':', .snippet ['c', ')']⟩
    parseAt? text 3 = some (.error e) ∧ e.expected ≠ .shallowerType ∧
      ∃ skipped cs, text = skipped ++ cs ∧ byteLength skipped = 3 ∧ BehindViable skipped cs e := by
  intro text e
  have failed : parseAt? text 3 = some (.error e) := by
    have failure : (parseAt? text 3).map (fun
        | .ok _ => none
        | .error e => some e) = some (some e) := by decide +kernel
    obtain ⟨result, read, same⟩ := Option.map_eq_some_iff.mp failure
    cases result with
    | ok found => cases same
    | error e' =>
      obtain rfl : e' = e := Option.some.inj same
      exact read
  have shallow : e.expected ≠ .shallowerType := by decide
  obtain ⟨-, places, -, -, limited⟩ := failure_behind_viable
  rw [limited] at failed
  exact ⟨failed, shallow, places depthLimit text 3 e failed shallow⟩

end LuaType
end Annodoc
