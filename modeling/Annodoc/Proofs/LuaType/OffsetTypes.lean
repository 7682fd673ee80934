import Annodoc.Proofs.LuaType.OffsetRules

/-!
# Types at an offset

The rules, tried in their order, read what the first word of a type settles. So types are read at
offsets as they are read from the front of a text, and no cut that is made on the way fails.
-/

namespace Annodoc
open Text Grammar LuaType

/-- The type at byte `position` of a text, with any limit on its nesting. -/
def LuaType.parseAtWithin? (limit : Nat) (text : List Char) (position : Nat) :
    Option (Except Mismatch (LuaType × Nat)) :=
  (afterBytes? position text).map fun rest =>
    match readWithin limit rest with
    | .ok (type, rest) => .ok (type, byteLength text - byteLength rest)
    | .error stop => .error (stop.inText text)

namespace AtOffset
variable {text cs rest : List Char} {n : Nat}

/-! ## What the rules follow -/

variable {nested : Reader LuaType} {nestedAt : Rule}

theorem mapTail_follows (hn : FollowsReader text nested nestedAt) :
    FollowsReader text (LuaType.mapTail nested) (mapTail text nestedAt) := by
  intro cs inside
  apply (mark_follows _ inside).bind inside
  rintro rest - inside
  apply (hn rest inside).bind inside
  rintro ⟨key, rest⟩ - inside
  apply (mark_follows _ inside).bind inside
  rintro rest - inside
  apply (hn rest inside).bind inside
  rintro ⟨value, rest⟩ - inside
  apply (mark_follows _ inside).bind inside
  rintro rest - -
  exact .ok List.suffix_rfl

theorem slotName_follows : FollowsReader text Grammar.name (slotName text false) := by
  intro cs inside
  rw [slotName, literal?_offset _ inside, pure_bind]
  cases Grammar.literal? "..." cs with
  | none => exact name_follows cs inside
  | some rest => exact name_follows cs inside

theorem slotName_follows_paramName : FollowsReader text LuaType.paramName (slotName text true) := by
  intro cs inside
  rw [slotName, literal?_offset _ inside, pure_bind]
  cases dots : Grammar.literal? "..." cs with
  | none =>
    have plain : LuaType.paramName cs = Grammar.name cs := by
      rw [LuaType.paramName.eq_def]
      split
      · next rest =>
        have found : Grammar.literal? "..." ('.' :: '.' :: '.' :: rest) = some rest :=
          literal?_eq_some_iff.mpr rfl
        rw [dots] at found
        cases found
      · rfl
    rw [plain]
    exact name_follows cs inside
  | some rest =>
    obtain rfl := literal?_eq_some_iff.mp dots
    exact .ok (List.suffix_append _ _)

theorem slot_follows (hn : FollowsReader text nested nestedAt) {nm : Reader String}
    {ofFunction : Bool} (names : FollowsReader text nm (slotName text ofFunction)) :
    FollowsReader text (LuaType.slot nested nm) (slot text nestedAt ofFunction) := by
  intro cs inside
  rw [slot, skipBlanks_offset inside, pure_bind]
  have inside := (dropBlanks_suffix cs).trans inside
  apply Follows.mono _ (dropBlanks_suffix cs)
  apply (names _ inside).bind inside
  rintro ⟨name, rest⟩ - (inside : rest <:+ text)
  dsimp only
  rw [questionMark_offset inside, pure_bind]
  have left := questionMark_suffix rest
  have inside := left.trans inside
  apply Follows.mono _ left
  apply (mark_follows _ inside).bind inside
  rintro rest - inside
  apply (hn rest inside).bind inside
  rintro ⟨type, rest⟩ - -
  exact .ok List.suffix_rfl

theorem tableTail_follows (hn : FollowsReader text nested nestedAt) :
    FollowsReader text (LuaType.tableTail nested) (tableTail text nestedAt) := by
  intro cs inside
  have slots := slot_follows hn slotName_follows
  apply (items_follows inside (slots cs inside) slots).bind inside
  rintro ⟨slots, rest⟩ - inside
  apply (mark_follows _ inside).bind inside
  rintro rest - -
  exact .ok List.suffix_rfl

theorem params_follows (hn : FollowsReader text nested nestedAt) :
    FollowsReader text (LuaType.params nested) (params text nestedAt) := by
  intro cs inside
  rw [params, mark?_offset _ inside, pure_bind, LuaType.params]
  cases Grammar.mark? ')' cs with
  | none =>
    have slots := slot_follows hn slotName_follows_paramName
    exact items_follows inside (slots cs inside) slots
  | some rest => exact .ok List.suffix_rfl

theorem functionTail_follows (hn : FollowsReader text nested nestedAt) :
    FollowsReader text (LuaType.functionTail nested) (functionTail text nestedAt) := by
  intro cs inside
  apply (mark_follows _ inside).bind inside
  rintro rest - inside
  apply (params_follows hn rest inside).bind inside
  rintro ⟨ps, rest⟩ - inside
  apply (mark_follows _ inside).bind inside
  rintro rest - (inside : rest <:+ text)
  dsimp only
  rw [mark?_offset _ inside, pure_bind]
  cases colon : Grammar.mark? ':' rest with
  | none => exact .ok List.suffix_rfl
  | some after =>
    have left := (mark?_suffix colon).trans (dropBlanks_suffix rest)
    have inside := left.trans inside
    apply Follows.mono _ left
    apply (hn after inside).bind inside
    rintro ⟨result, rest⟩ - -
    exact .ok List.suffix_rfl

/-! ## Types that begin with a word -/

theorem ident_table : ∀ c ∈ "table".toList, isIdent c = true := List.all_eq_true.mp (by decide)

theorem ident_fun : ∀ c ∈ "fun".toList, isIdent c = true := List.all_eq_true.mp (by decide)

/-- Neither a quote nor a brace stands at the front. -/
structure BeginsWord (cs : List Char) : Prop where
  quote? : quote? cs = none
  brace : ∀ rest, cs ≠ '\x7b' :: rest

/-- Without a word no rule begins that asks for one. -/
theorem misses_of_empty (nestedAt : Rule) (word : identPart cs = []) (inside : cs <:+ text) :
    Misses text (offset text cs) (listRule text listElements) ∧
      Misses text (offset text cs) (wordRule text "table" (mapTail text nestedAt)) ∧
      Misses text (offset text cs) (wordRule text "fun" (functionTail text nestedAt)) := by
  have noKeyword : Keyword.ofText? (String.ofList (identPart cs)) = none := by
    rw [word]
    decide
  refine ⟨listRule_misses _ inside fun k found => ?_, ?_, ?_⟩
  · cases noKeyword.symm.trans found
  · rw [Misses, wordRule_offset ident_table _ inside, word, if_neg (by decide)]
  · rw [Misses, wordRule_offset ident_fun _ inside, word, if_neg (by decide)]

theorem rules_empty (begins : BeginsWord cs) (word : identPart cs = []) (inside : cs <:+ text) :
    firstOf text (offset text cs) none (rules text nestedAt) =
      failAt text (offset text cs) .aType := by
  obtain ⟨noList, noMap, noFunction⟩ := misses_of_empty nestedAt word inside
  have noPrimitive : Misses text (offset text cs) (primitiveRule text) := by
    rw [Misses, primitiveRule_word begins.quote? inside, if_pos word]
  apply firstOf_none inside
  simp only [rules, List.forall_mem_cons]
  exact ⟨noList, noMap, tableRule_misses inside begins.brace, noFunction, noPrimitive,
    List.forall_mem_nil _⟩

/-- A rule for another word, or one whose tail fails, is passed by. -/
theorem wordRule_fails {word : String} {reader : Reader LuaType} {tail : Rule}
    (ident : ∀ c ∈ word.toList, isIdent c = true) (follows : FollowsReader text reader tail)
    (fails : identPart cs = word.toList →
      ∃ s, reader (afterIdent cs) = .error s ∧ s.expected ≠ .shallowerType)
    (inside : cs <:+ text) : Fails (offset text cs) (wordRule text word tail) := by
  by_cases same : identPart cs = word.toList
  · obtain ⟨s, read, shallow⟩ := fails same
    have run := (follows _ ((afterIdent_suffix cs).trans inside)).same
    refine ⟨s.inText text, ?_, shallow⟩
    rw [wordRule_offset ident _ inside, if_pos same]
    rwa [read] at run
  · exact Misses.fails (by rw [Misses, wordRule_offset ident _ inside, if_neg same]) inside

/-- What the last rule reads is the result where the rules before it fail. -/
theorem rules_primitive (brace : ∀ rest, cs ≠ '\x7b' :: rest)
    (noList : Fails (offset text cs) (listRule text listElements))
    (noMap : Fails (offset text cs) (wordRule text "table" (mapTail text nestedAt)))
    (noFunction : Fails (offset text cs) (wordRule text "fun" (functionTail text nestedAt)))
    {found : LuaType × Nat} (primitive : primitiveRule text (offset text cs) = pure found)
    (inside : cs <:+ text) :
    firstOf text (offset text cs) none (rules text nestedAt) = pure found := by
  have failing : ∀ rule ∈ [listRule text listElements, wordRule text "table" (mapTail text nestedAt),
      tableRule text nestedAt, wordRule text "fun" (functionTail text nestedAt)],
      Fails (offset text cs) rule := by
    simp only [List.forall_mem_cons]
    exact ⟨noList, noMap, (tableRule_misses inside brace).fails inside, noFunction,
      List.forall_mem_nil _⟩
  exact firstOf_found failing primitive

/-- With dots behind the first word, the name is read. -/
theorem rules_dotted (hn : FollowsReader text nested nestedAt) (begins : BeginsWord cs)
    (word : identPart cs ≠ []) {p : String} {ps : List String}
    (dots : dottedParts (afterIdent cs) = (p :: ps, rest)) (inside : cs <:+ text) :
    firstOf text (offset text cs) none (rules text nestedAt) =
      pure (.named (String.ofList (identPart cs) :: p :: ps) (brackets? rest).isSome,
        offset text ((brackets? rest).getD rest)) := by
  obtain ⟨-, split, -⟩ := dottedParts_spec (identEnds_afterIdent cs)
  rw [dots, List.flatMap_cons, List.cons_append] at split
  have primitive := primitiveRule_word begins.quote? inside
  rw [if_neg word, dots] at primitive
  refine rules_primitive begins.brace ?_ ?_ ?_ primitive inside
  · refine (listRule_misses _ inside ?_).fails inside
    intro k _
    rw [split]
    exact listTail?_eq_none_iff.mpr fun _ _ eq => by cases eq
  · apply wordRule_fails ident_table (mapTail_follows hn) _ inside
    intro _
    rw [split]
    exact ⟨_, rfl, nofun⟩
  · apply wordRule_fails ident_fun (functionTail_follows hn) _ inside
    intro _
    rw [split]
    exact ⟨_, rfl, nofun⟩

theorem text_injective {k l : Keyword} (h : k.text = l.text) : k = l :=
  Option.some.inj ((ofText?_eq_some_iff.mpr rfl).symm.trans (ofText?_eq_some_iff.mpr h))

/-- The keyword `table` is read where no list is, unless a map is read or is too deep. -/
theorem rules_table (hn : FollowsReader text nested nestedAt)
    (word : identPart cs = "table".toList)
    (noList : Fails (offset text cs) (listRule text listElements))
    (found : Fails (offset text cs) (wordRule text "table" (mapTail text nestedAt)) →
      firstOf text (offset text cs) none (rules text nestedAt) =
        pure (.keyword .table, offset text (afterIdent cs)))
    (inside : cs <:+ text) :
    Follows text cs Prod.snd (leavingAt text)
      (match LuaType.mapTail nested (afterIdent cs) with
        | .ok found => .ok found
        | .error stop => if stop.expected = .shallowerType then .error stop
          else .ok (.keyword .table, afterIdent cs))
      (firstOf text (offset text cs) none (rules text nestedAt)) := by
  have after := afterIdent_suffix cs
  have tail := mapTail_follows hn _ (after.trans inside)
  have run := (wordRule_offset ident_table (mapTail text nestedAt) inside).trans (if_pos word)
  rw [tail.same] at run
  have failing : ∀ rule ∈ [listRule text listElements], Fails (offset text cs) rule :=
    List.forall_mem_singleton.mpr noList
  cases read : LuaType.mapTail nested (afterIdent cs) with
  | ok map =>
    rw [read] at run
    have result : firstOf text (offset text cs) none (rules text nestedAt) =
        pure (leavingAt text map) := firstOf_found failing run
    rw [result]
    exact .ok ((tail.left_suffix map read).trans after)
  | error s =>
    rw [read] at run
    dsimp only
    split
    · next deep =>
      have result : firstOf text (offset text cs) none (rules text nestedAt) =
          throw (s.inText text) := firstOf_tooDeep failing run deep
      rw [result]
      exact .error ((tail.stop_suffix s read).trans after)
    · next shallow =>
      rw [found ⟨_, run, shallow⟩]
      exact .ok after

/-- A keyword is read with what may follow it. -/
theorem rules_keyword (hn : FollowsReader text nested nestedAt) (begins : BeginsWord cs)
    {k : Keyword} (keyword : Keyword.ofText? (String.ofList (identPart cs)) = some k)
    (dots : dottedParts (afterIdent cs) = ([], afterIdent cs)) (inside : cs <:+ text) :
    Follows text cs Prod.snd (leavingAt text) (LuaType.keywordTail nested k (afterIdent cs))
      (firstOf text (offset text cs) none (rules text nestedAt)) := by
  have word : identPart cs = k.text.toList := by
    rw [← ofText?_eq_some_iff.mp keyword, String.toList_ofList]
  have other {w : String} (differs : k.text ≠ w) {P : Prop} (same : identPart cs = w.toList) : P :=
    absurd (String.toList_inj.mp (word.symm.trans same)) differs
  have whole : cs = k.text.toList ++ afterIdent cs := by rw [← word, identPart_append_afterIdent]
  have after := afterIdent_suffix cs
  have primitive : primitiveRule text (offset text cs) =
      pure (.keyword k, offset text (afterIdent cs)) := by
    rw [primitiveRule_word begins.quote? inside, dots, if_neg (word ▸ (isWord_text k).1)]
    simp only [keyword]
  rw [LuaType.keywordTail]
  cases list : listTail? k (afterIdent cs) with
  | some found =>
    obtain ⟨t, rest⟩ := found
    obtain ⟨e, rfl, rfl, brackets, ends⟩ := listTail?_eq_some_iff.mp list
    have found := listRule_found (mem_listElements e) inside (whole.trans (by rw [brackets])) ends
    rw [rules, firstOf_ok found]
    exact .ok (List.IsSuffix.trans ⟨['[', ']'], brackets.symm⟩ after)
  | none =>
    have noList : Misses text (offset text cs) (listRule text listElements) := by
      refine listRule_misses _ inside fun k' found => ?_
      obtain rfl := Option.some.inj (keyword.symm.trans found)
      exact list
    have noFunction : Fails (offset text cs) (wordRule text "fun" (functionTail text nestedAt)) :=
      wordRule_fails ident_fun (functionTail_follows hn) (other (by cases k <;> decide)) inside
    have found (noMap : Fails (offset text cs) (wordRule text "table" (mapTail text nestedAt))) :=
      rules_primitive begins.brace (noList.fails inside) noMap noFunction primitive inside
    dsimp only
    split
    · next table =>
      subst table
      exact rules_table hn word (noList.fails inside) found inside
    · next differs =>
      have noMap : Fails (offset text cs) (wordRule text "table" (mapTail text nestedAt)) :=
        wordRule_fails ident_table (mapTail_follows hn)
          (other fun same => differs (text_injective same)) inside
      rw [found noMap]
      exact .ok after

/-- A word without dots that is no keyword begins a function, or it is a number. -/
theorem rules_plain (hn : FollowsReader text nested nestedAt) (begins : BeginsWord cs)
    (word : identPart cs ≠ []) (noKeyword : Keyword.ofText? (String.ofList (identPart cs)) = none)
    (dots : dottedParts (afterIdent cs) = ([], afterIdent cs)) (inside : cs <:+ text) :
    Follows text cs Prod.snd (leavingAt text)
      (if String.ofList (identPart cs) = "fun" then LuaType.functionTail nested (afterIdent cs)
        else if identPart cs ≠ [] ∧ (identPart cs).all Char.isDigit then
          .ok (.number (String.ofList (identPart cs)), afterIdent cs)
        else .error ⟨.aType, cs⟩)
      (firstOf text (offset text cs) none (rules text nestedAt)) := by
  have after := afterIdent_suffix cs
  have noList : Misses text (offset text cs) (listRule text listElements) :=
    listRule_misses _ inside fun k found => by cases noKeyword.symm.trans found
  have noMap : Misses text (offset text cs) (wordRule text "table" (mapTail text nestedAt)) := by
    rw [Misses, wordRule_offset ident_table _ inside, if_neg]
    intro same
    rw [same] at noKeyword
    exact absurd noKeyword (by decide)
  have primitive := primitiveRule_word begins.quote? inside
  rw [if_neg word, dots] at primitive
  simp only [noKeyword] at primitive
  split
  · next isFun =>
    have same : identPart cs = "fun".toList := by rw [← isFun, String.toList_ofList]
    have tail := functionTail_follows hn _ (after.trans inside)
    have run := (wordRule_offset ident_fun (functionTail text nestedAt) inside).trans (if_pos same)
    rw [tail.same] at run
    have noPrimitive : Misses text (offset text cs) (primitiveRule text) := by
      rw [same] at primitive
      exact primitive
    have front : ∀ rule ∈ [listRule text listElements,
        wordRule text "table" (mapTail text nestedAt), tableRule text nestedAt],
        Misses text (offset text cs) rule := by
      simp only [List.forall_mem_cons]
      exact ⟨noList, noMap, tableRule_misses inside begins.brace, List.forall_mem_nil _⟩
    have past (s : Stop) (failed : LuaType.functionTail nested (afterIdent cs) = .error s) :
        offset text cs < offset text s.rest :=
      Nat.lt_of_lt_of_le (offset_lt_afterIdent word inside)
        (offset_le (tail.stop_suffix s failed) (after.trans inside))
    exact ⟨(tail.mono after).toStays,
      firstOf_only inside front (List.forall_mem_singleton.mpr noPrimitive) past run⟩
  · next noFun =>
    have noFunction : Misses text (offset text cs)
        (wordRule text "fun" (functionTail text nestedAt)) := by
      rw [Misses, wordRule_offset ident_fun _ inside, if_neg]
      intro same
      rw [same] at noFun
      exact noFun rfl
    split
    · next digits =>
      rw [if_pos digits.2] at primitive
      rw [rules_primitive begins.brace (noList.fails inside) (noMap.fails inside)
        (noFunction.fails inside) primitive inside]
      exact .ok after
    · next noDigits =>
      rw [if_neg fun digits => noDigits ⟨word, digits⟩] at primitive
      have missing : ∀ rule ∈ rules text nestedAt, Misses text (offset text cs) rule := by
        simp only [rules, List.forall_mem_cons]
        exact ⟨noList, noMap, tableRule_misses inside begins.brace, noFunction, primitive,
          List.forall_mem_nil _⟩
      rw [firstOf_none inside missing, failAt_offset inside]
      exact .error List.suffix_rfl

theorem word_follows (hn : FollowsReader text nested nestedAt) (begins : BeginsWord cs)
    (inside : cs <:+ text) : Follows text cs Prod.snd (leavingAt text) (LuaType.word nested cs)
      (firstOf text (offset text cs) none (rules text nestedAt)) := by
  have after := afterIdent_suffix cs
  obtain ⟨-, split, -⟩ := dottedParts_spec (identEnds_afterIdent cs)
  rw [LuaType.word]
  cases dots : dottedParts (afterIdent cs) with
  | mk parts rest =>
  rw [dots] at split
  cases parts with
  | nil =>
    obtain rfl : afterIdent cs = rest := split
    dsimp only
    split
    · next k keyword => exact rules_keyword hn begins keyword dots inside
    · next noKeyword =>
      by_cases word : identPart cs = []
      · rw [rules_empty begins word inside, failAt_offset inside, word, if_neg (by decide),
          if_neg (by simp)]
        exact .error List.suffix_rfl
      · exact rules_plain hn begins word noKeyword dots inside
  | cons p ps =>
    dsimp only
    split
    · next word =>
      rw [rules_empty begins word inside, failAt_offset inside]
      exact .error List.suffix_rfl
    · next word =>
      rw [rules_dotted hn begins word dots inside]
      have left : rest <:+ cs := List.IsSuffix.trans ⟨_, split.symm⟩ after
      cases found : brackets? rest with
      | none => exact .ok left
      | some behind =>
        obtain rfl := brackets?_eq_some_iff.mp found
        exact .ok (List.IsSuffix.trans ⟨['[', ']'], rfl⟩ left)

/-! ## Types -/

theorem rules_brace (hn : FollowsReader text nested nestedAt) (inside : '\x7b' :: cs <:+ text) :
    Follows text ('\x7b' :: cs) Prod.snd (leavingAt text) (LuaType.tableTail nested cs)
      (firstOf text (offset text ('\x7b' :: cs)) none (rules text nestedAt)) := by
  have left : cs <:+ '\x7b' :: cs := List.suffix_cons _ _
  have tail := tableTail_follows hn cs (left.trans inside)
  have run := tableRule_brace nestedAt inside
  rw [tail.same] at run
  have word : identPart ('\x7b' :: cs) = [] := rfl
  obtain ⟨noList, noMap, noFunction⟩ := misses_of_empty nestedAt word inside
  have noPrimitive : Misses text (offset text ('\x7b' :: cs)) (primitiveRule text) :=
    (primitiveRule_word rfl inside).trans (if_pos word)
  have front : ∀ rule ∈ [listRule text listElements, wordRule text "table" (mapTail text nestedAt)],
      Misses text (offset text ('\x7b' :: cs)) rule := by
    simp only [List.forall_mem_cons]
    exact ⟨noList, noMap, List.forall_mem_nil _⟩
  have back : ∀ rule ∈ [wordRule text "fun" (functionTail text nestedAt), primitiveRule text],
      Misses text (offset text ('\x7b' :: cs)) rule := by
    simp only [List.forall_mem_cons]
    exact ⟨noFunction, noPrimitive, List.forall_mem_nil _⟩
  have past (s : Stop) (failed : LuaType.tableTail nested cs = .error s) :
      offset text ('\x7b' :: cs) < offset text s.rest :=
    offset_lt (tail.stop_suffix s failed) inside
  exact ⟨(tail.mono left).toStays, firstOf_only inside front back past run⟩

theorem rules_quoted (q : Quote) (inside : q.char :: cs <:+ text) :
    Follows text (q.char :: cs) Prod.snd (leavingAt text)
      ((quotedText q cs).elim (.error ⟨.aType, q.char :: cs⟩) .ok)
      (firstOf text (offset text (q.char :: cs)) none (rules text nestedAt)) := by
  have word : identPart (q.char :: cs) = [] := by cases q <;> rfl
  have brace : ∀ rest, q.char :: cs ≠ '\x7b' :: rest := by cases q <;> exact fun _ => nofun
  obtain ⟨noList, noMap, noFunction⟩ := misses_of_empty nestedAt word inside
  have primitive := primitiveRule_quoted q inside
  cases found : quotedText q cs with
  | none =>
    rw [found] at primitive
    have missing : ∀ rule ∈ rules text nestedAt, Misses text (offset text (q.char :: cs)) rule := by
      simp only [rules, List.forall_mem_cons]
      exact ⟨noList, noMap, tableRule_misses inside brace, noFunction, primitive,
        List.forall_mem_nil _⟩
    rw [firstOf_none inside missing, failAt_offset inside]
    exact .error List.suffix_rfl
  | some literal =>
    rw [found] at primitive
    obtain ⟨s, -, -, split⟩ := quotedText_eq_some_iff.mp found
    rw [rules_primitive brace (noList.fails inside) (noMap.fails inside) (noFunction.fails inside)
      primitive inside]
    exact .ok ⟨q.char :: s.toList ++ [q.char], by simp [split]⟩

theorem single_follows (hn : FollowsReader text nested nestedAt) (inside : cs <:+ text) :
    Follows text (dropBlanks cs) Prod.snd (leavingAt text) (LuaType.single nested cs)
      (single text nestedAt (offset text cs)) := by
  rw [single, skipBlanks_offset inside, pure_bind, LuaType.single]
  have inside := (dropBlanks_suffix cs).trans inside
  split
  · next rest eq =>
    rw [eq] at inside ⊢
    exact rules_brace hn inside
  · next rest eq =>
    rw [eq] at inside ⊢
    exact rules_quoted .single inside
  · next rest eq =>
    rw [eq] at inside ⊢
    exact rules_quoted .double inside
  · next noBrace noSingle noDouble =>
    refine word_follows hn ⟨?_, noBrace⟩ inside
    rw [quote?.eq_def]
    split
    · next rest eq => exact absurd eq (noSingle rest)
    · next rest eq => exact absurd eq (noDouble rest)
    · rfl

/-- Types are read at offsets as they are read from the front of a text. -/
theorem typeWithin_follows (limit : Nat) (inside : cs <:+ text) :
    Follows text (dropBlanks cs) Prod.snd (leavingAt text) (readWithin limit cs)
      (typeWithin text limit (offset text cs)) := by
  induction limit generalizing cs with
  | zero =>
    rw [typeWithin, skipBlanks_offset inside, pure_bind,
      failAt_offset ((dropBlanks_suffix cs).trans inside)]
    exact .error List.suffix_rfl
  | succ limit ih =>
    have hn : FollowsReader text (readWithin limit) (typeWithin text limit) :=
      fun cs inside => (ih inside).mono (dropBlanks_suffix cs)
    have singles : FollowsReader text (LuaType.single (readWithin limit))
        (single text (typeWithin text limit)) :=
      fun cs inside => (single_follows hn inside).mono (dropBlanks_suffix cs)
    have place := (dropBlanks_suffix cs).trans inside
    apply (items_follows place (single_follows hn inside) singles).bind place
    rintro ⟨members, rest⟩ - -
    exact .ok List.suffix_rfl

/-! ## Offsets inside a character -/

/-- The type at an offset. -/
def typeAt (text : List Char) (n : Nat) : Cutting Mismatch (LuaType × Nat) :=
  typeWithin text depthLimit n

theorem afterBytes?_of_not_isBoundary (h : ¬ IsBoundary text n) : afterBytes? n text = none := by
  rw [isBoundary_iff, ← Option.isSome_iff_exists, Option.not_isSome_iff_eq_none] at h
  exact h

/-- Inside a character there are no blanks to skip, and past the end there is nothing. -/
theorem skipBlanks_of_not_isBoundary (h : ¬ IsBoundary text n) :
    skipBlanks text n = if n ≤ byteLength text then pure n else ExceptT.mk none := by
  have stays : n + (((utf8 text).drop n).takeWhile fun b => isBlank (asciiOf b)).length = n :=
    skipBytes_of_not_isBoundary onAscii_isBlank h
  rw [skipBlanks, skip, bytesFrom?]
  split
  · rw [lift_some, pure_bind, stays]
  · rfl

theorem typeWithin_of_not_isBoundary (limit : Nat) (h : ¬ IsBoundary text n) :
    typeWithin text limit n = ExceptT.mk none := by
  have nothing := afterBytes?_of_not_isBoundary h
  cases limit with
  | zero =>
    rw [typeWithin, skipBlanks_of_not_isBoundary h]
    split
    · next inside =>
      rw [pure_bind, failAt, Nat.min_eq_left inside, nothing]
      rfl
    · rfl
  | succ limit =>
    rw [typeWithin, items, single, skipBlanks_of_not_isBoundary h]
    split
    · next inside =>
      rw [pure_bind, rules, firstOf, listElements, listRule, literal?, nothing]
      rfl
    · rfl

/-- Types are read at offsets with no failing check, other than the one that the first offset is a
boundary. -/
theorem typeWithin_eq (limit : Nat) (text : List Char) (n : Nat) :
    (typeWithin text limit n).run = parseAtWithin? limit text n := by
  by_cases h : IsBoundary text n
  · obtain ⟨cs, inside, rfl⟩ := exists_offset h
    rw [(typeWithin_follows limit inside).same, parseAtWithin?, afterBytes?_offset inside,
      Option.map_some]
    cases readWithin limit cs <;> rfl
  · rw [typeWithin_of_not_isBoundary _ h, parseAtWithin?, afterBytes?_of_not_isBoundary h]
    rfl

theorem typeAt_eq (text : List Char) (n : Nat) : (typeAt text n).run = parseAt? text n :=
  typeWithin_eq depthLimit text n

end AtOffset

namespace LuaType
open AtOffset (afterBytes?_of_not_isBoundary typeWithin_follows)
variable {text cs rest : List Char} {n : Nat}

theorem parseAt?_of_not_isBoundary (h : ¬ IsBoundary text n) : parseAt? text n = none := by
  rw [parseAt?, afterBytes?_of_not_isBoundary h, Option.map_none]

/-- A type takes a character at least, besides the blanks in front of it. -/
theorem length_lt_of_read {limit : Nat} {t : LuaType} (h : readWithin limit cs = .ok (t, rest)) :
    rest.length < (dropBlanks cs).length := by
  obtain ⟨admissible, -, blanks, r, rfl, blank, renders⟩ := readWithin_eq_ok_iff.mp h
  obtain ⟨c, head, inked⟩ := renders.head_not_blank admissible.wellFormed.inked
  obtain ⟨cs, rfl⟩ := List.head?_eq_some_iff.mp head
  rw [dropBlanks_append blank, List.cons_append, dropBlanks_cons inked, List.length_cons,
    List.length_append]
  omega

/-- At a boundary of a text a type is read, or the failure points behind the blanks there. -/
theorem parseAt?_of_isBoundary (h : IsBoundary text n) : ∃ result, parseAt? text n = some result ∧
    match result with
    | .ok (_, stop) => skipBlank text n < stop ∧ IsBoundary text stop
    | .error e => skipBlank text n ≤ e.position ∧ IsBoundary text e.position := by
  obtain ⟨cs, inside, rfl⟩ := exists_offset h
  have follows := typeWithin_follows depthLimit inside
  have place := (dropBlanks_suffix cs).trans inside
  simp only [parseAt?, afterBytes?_offset inside, Option.map_some, skipBlank_offset inside]
  refine ⟨_, rfl, ?_⟩
  cases read : readWithin depthLimit cs with
  | ok found =>
    have behind := (follows.left_suffix _ read).trans place
    simp only [LuaType.read, read]
    exact ⟨(offset_lt_iff place behind).mpr (length_lt_of_read read), isBoundary_offset behind⟩
  | error s =>
    have stays := follows.stop_suffix s read
    simp only [LuaType.read, read]
    exact ⟨offset_le stays place, isBoundary_offset (stays.trans place)⟩

end LuaType
end Annodoc
