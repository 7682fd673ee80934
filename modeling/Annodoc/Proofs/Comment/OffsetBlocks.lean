import Annodoc.Comment.Outcome
import Annodoc.Proofs.Comment.Offsets
import Annodoc.Proofs.Comment.TagLines

/-!
# Blocks by line numbers

The blocks of a source once more, by the numbers of their lines, with a check wherever a line is
asked for, lines are taken out, or a line is cut. No check fails, and the outcomes are the same.
-/

namespace Annodoc
open Text Grammar LuaType Comment

/-- A reading in which no check fails. -/
def unbroken {ε α : Type} (x : Except ε α) : Cutting ε α := ExceptT.mk (some x)

@[simp] theorem unbroken_ok {ε α : Type} (a : α) : unbroken (.ok a : Except ε α) = pure a := rfl

namespace AtOffset

/-- A failure of line `index`. -/
def atLine {α : Type} (index : Nat) (reading : Cutting Mismatch α) : Cutting LineMismatch α :=
  reading.adapt fun e => ⟨index, e⟩

/-- The tag word that a line begins with, if any. -/
def tagWord? (line : List Char) : Option (Option (List Char)) :=
  let text := trimStart line
  if text.head? = some '@' then
    (beforeBytes? ((findOffset? isSpace text).getD (byteLength text)) text).map some
  else some none

def tagAt? (line : List Char) : Option (Option Tag) := do
  let word ← tagWord? line
  return word.map fun word => .ofWord (String.ofList word)

/-- The offset behind the white space in front of a line. -/
def indent (line : List Char) : Nat := byteLength line - byteLength (trimStart line)

/-- The offset behind the tag word. -/
def tagEnd? (line : List Char) : Option Nat := do
  let word ← tagWord? line
  return indent line + word.elim 0 byteLength

/-- Whether a line begins with a blank and holds text, but no tag. -/
def isInner? (line : List Char) : Option Bool := do
  if line.head?.any isBlank && !isEmptyText line then
    let tag ← tagAt? line
    return tag.isNone
  else return false

/-- The lines of a block from one number to another one, if both are in order and in the block. -/
def linesBetween? (block : List (List Char)) (start stop : Nat) : Option (List (List Char)) :=
  if start ≤ stop ∧ stop ≤ block.length then some ((block.drop start).take (stop - start)) else none

variable (limit : Nat) (block : List (List Char))

/-- The number of the first line from `i` on that does not pass a test. -/
def runEnd (test : List Char → Option Bool) (i : Nat) : Option Nat := do
  if i < block.length then do
    let line ← block[i]?
    if ← test line then runEnd test (i + 1) else return i
  else return i
termination_by block.length - i
decreasing_by omega

/-- The parts of a parameter, from line `i` on, and the number of the line behind them. -/
def subparams (i : Nat) : Cutting LineMismatch (List Param × Nat) := do
  if i < block.length then do
    let line ← (block[i]? : Option (List Char))
    if ← isInner? line then do
      let p ← atLine i (parameter line limit false 0)
      let (ps, next) ← subparams (i + 1)
      return (p :: ps, next)
    else return ([], i)
  else return ([], i)
termination_by block.length - i
decreasing_by omega

/-- The text of the indented lines from `start` on, each without its first byte, and the number of
the line behind them. -/
def bodyText (start : Nat) : Cutting LineMismatch (String × Nat) := do
  let stop ← runEnd block isInner? start
  if stop = start then atLine start (failAt (block[start]?.getD []) 0 .indentedLine) else do
  let lines ← linesBetween? block start stop
  let texts ← (lines.mapM (afterBytes? 1) : Option (List (List Char)))
  return (unlines (texts.map String.ofList), stop)

/-- The clause of a tag on line `i`, from the offset behind it on, and the number of the line behind
the clause. -/
def clause (i : Nat) (line : List Char) (tag : Tag) (n : Nat) :
    Cutting LineMismatch (Clause × Nat) :=
  match tag with
  | .param => do
    let p ← atLine i (parameter line limit true n)
    let (subs, next) ← subparams limit block (i + 1)
    return (.param { p with subparams := subs }, next)
  | .returns => do
    let r ← atLine i (returned line limit n)
    return (.returns r, i + 1)
  | .privateMark => do
    atLine i (nothingMore line n)
    return (.privateMark, i + 1)
  | .deprecatedMark => do
    atLine i (nothingMore line n)
    return (.deprecatedMark, i + 1)
  | .sample => do
    atLine i (nothingMore line n)
    let (text, next) ← bodyText block (i + 1)
    return (.sample text, next)
  | .note => do
    atLine i (nothingMore line n)
    let (text, next) ← bodyText block (i + 1)
    return (.note text, next)
  | _ => atLine i (failAt line (indent line) .functionTag)

/-- The clauses from line `i` on. -/
def clauses (i : Nat) : Cutting LineMismatch (List Clause) := do
  if i < block.length then do
    let line ← (block[i]? : Option (List Char))
    if isEmptyText line then clauses (i + 1) else do
    match ← tagAt? line with
    | none => atLine i (failAt line 0 .aTag)
    | some tag => do
      let n ← tagEnd? line
      let (c, next) ← clause limit block i line tag n
      if i < next then do
        let cs ← clauses next
        return c :: cs
      else broken
  else return []
termination_by block.length - i
decreasing_by all_goals omega

/-- The summary of a block, and the number of the line behind it. -/
def summary : Option (String × Nat) := do
  let i ← runEnd block (fun line => some (isEmptyText line)) 0
  match block[i]? with
  | none => return ("", i)
  | some line =>
    match ← tagAt? line with
    | none => return (String.ofList (trim line), i + 1)
    | some _ => return ("", i)

def functionBlock (name : String) (lines : List String) : Cutting LineMismatch FunctionDoc := do
  let (summary, i) ← summary (lines.map body)
  let cs ← clauses limit (lines.map body) i
  return functionOfClauses name summary cs

/-- The lines of a class from line `i` on. -/
def members (markAllowed : Bool) (i : Nat) : Cutting LineMismatch (Bool × List Field) := do
  if i < block.length then do
    let line ← (block[i]? : Option (List Char))
    match ← tagAt? line with
    | some .opaqueMark =>
      if markAllowed then do
        let n ← tagEnd? line
        atLine i (nothingMore line n)
        let (_, fields) ← members false (i + 1)
        return (true, fields)
      else atLine i (failAt line (indent line) .fieldTag)
    | some .field => do
      let n ← tagEnd? line
      let f ← atLine i (field line limit n)
      let (_, fields) ← members false (i + 1)
      return (false, f :: fields)
    | none =>
      if isEmptyText line then members markAllowed (i + 1)
      else atLine i (failAt line (indent line) .fieldTag)
    | some _ => atLine i (failAt line (indent line) .fieldTag)
  else return (false, [])
termination_by block.length - i
decreasing_by all_goals omega

def classBlock (lines : List String) : Cutting LineMismatch ClassDoc := do
  let block := lines.map body
  let i ← runEnd block (fun line => (tagAt? line).map Option.isNone) 0
  let line := block[i]?.getD []
  match ← tagAt? line with
  | some .classHeader => do
    let n ← tagEnd? line
    let h ← atLine i (header line n)
    let (isOpaque, fields) ← members limit block true (i + 1)
    if fields.isEmpty then atLine i (failAt [] 0 .someField)
    else
      let desc := unlines ((block.take i).map fun line => String.ofList (trim line))
      return ⟨h.name, h.parent, isOpaque, h.isExact, String.ofList (trim desc.toList), fields⟩
  | _ => atLine i (failAt line 0 .classTag)

def aliasBlock? (lines : List String) : Option (Option AliasDoc) := do
  let block := lines.map body
  let i ← runEnd block (fun line => (tagAt? line).map (· ≠ some .aliasHeader)) 0
  match block[i]? with
  | none => return none
  | some line =>
    let n ← tagEnd? line
    let text ← afterBytes? n line
    let below ← linesBetween? block (i + 1) block.length
    let name := wordPart (trimStart text)
    let written := below.filter fun line => !isEmptyText line
    match written.mapM fun line => aliasValue? (trimEnd line) with
    | none => return none
    | some values =>
      return if name = [] ∨ values = [] then none else some ⟨String.ofList name, values⟩

/-- What a block documents. -/
def purpose (lines : List String) (next : Option String) : Option Purpose := do
  let tags ← lines.mapM fun line => tagAt? (body line)
  let other := if some .classHeader ∈ tags then .someClass
    else if some .aliasHeader ∈ tags then .someAlias
    else .nothing
  match next.bind declaredName? with
  | some name =>
    return if (∀ tag ∈ tags, tag = none) ∨ some .param ∈ tags ∨ some .returns ∈ tags then
      .functionNamed name else other
  | none => return other

def outcome (b : Block) : Option Outcome := do
  match ← purpose b.lines b.next with
  | .functionNamed name =>
    match ← (functionBlock depthLimit name b.lines).run with
    | .ok f => return .functionDoc { f with annotation := b.lines, line := b.start }
    | .error e => return .failed (b.failure (.functionNamed name) e)
  | .someClass =>
    match ← (classBlock depthLimit b.lines).run with
    | .ok c => return .classDoc c
    | .error e => return .failed (b.failure .someClass e)
  | .someAlias =>
    match ← aliasBlock? b.lines with
    | some a => return .aliasDoc a
    | none => return .omitted b.start .noValues
  | .nothing =>
    match b.next.bind declaredName? with
    | some name => return .omitted b.start (.undocumented name)
    | none => return .omitted b.start .noDeclaration

def fileOfLines (source : List String) : Option FileDoc := do
  let outcomes ← (blocks source).mapM outcome
  return fileOfOutcomes outcomes

/-! ## Tags -/

variable {block} {line text rest : List Char} {lines : List (List Char)} {i index : Nat}
  {tag : Tag}

theorem tagWord?_eq (line : List Char) : tagWord? line = some (
    if (trimStart line).head? = some '@' then some (wordPart (trimStart line)) else none) := by
  have cut := beforeBytes?_append (wordPart (trimStart line)) (afterWord (trimStart line))
  rw [wordPart_append_afterWord] at cut
  rw [tagWord?]
  split
  · rw [findOffset?_getD, ← wordPart, cut]
    rfl
  · rfl

theorem tagAt?_eq (line : List Char) : tagAt? line = some (tag? line) := by
  rw [tagAt?, tagWord?_eq, tag?, splitTag]
  split
  · next begins =>
    obtain ⟨rest, eq⟩ := List.head?_eq_some_iff.mp begins
    rw [eq]
    rfl
  · next other =>
    split
    · next rest eq => exact absurd (eq ▸ List.head?_cons) other
    · rfl

theorem tagEnd?_eq (h : splitTag line = some (tag, text)) :
    tagEnd? line = some (offset line text) := by
  rw [splitTag] at h
  split at h
  · next after eq =>
    obtain ⟨-, rfl⟩ := Prod.mk.inj (Option.some.inj h)
    have split := wordPart_append_afterWord ('@' :: after)
    have inside : '@' :: after <:+ line := eq ▸ List.dropWhile_suffix _
    have behind := offset_append (split.symm ▸ inside)
    rw [split] at behind
    rw [tagEnd?, tagWord?_eq, behind, indent, eq]
    rfl
  · cases h

theorem isInner?_eq (line : List Char) : isInner? line = some (isInnerText line) := by
  rw [isInner?, isInnerText, tagAt?_eq]
  cases line.head?.any isBlank && !isEmptyText line <;> rfl

/-! ## Lines -/

/-- A line of the block is asked for by its number, and the lines below it begin at the next. -/
theorem drop_cons (here : block.drop i = line :: lines) :
    i < block.length ∧ block[i]? = some line ∧ block.drop (i + 1) = lines := by
  refine ⟨?_, ?_, ?_⟩
  · have := congrArg List.length here
    rw [List.length_drop, List.length_cons] at this
    omega
  · rw [← List.head?_drop, here, List.head?_cons]
  · rw [← List.tail_drop, here, List.tail_cons]

theorem not_lt_of_drop_nil (here : block.drop i = []) : ¬ i < block.length :=
  Nat.not_lt.mpr (List.drop_eq_nil_iff.mp here)

theorem getElem?_of_drop_nil (here : block.drop i = []) : block[i]? = none := by
  rw [← List.head?_drop, here, List.head?_nil]

/-- A run of lines ends behind those of them that pass the test. -/
theorem runEnd_eq {test : List Char → Option Bool} {p : List Char → Bool}
    (agrees : ∀ line, test line = some (p line)) (here : block.drop i = lines) :
    runEnd block test i = some (i + (lines.takeWhile p).length) := by
  induction lines generalizing i with
  | nil =>
    rw [runEnd, if_neg (not_lt_of_drop_nil here)]
    rfl
  | cons line lines ih =>
    obtain ⟨inside, found, next⟩ := drop_cons here
    rw [runEnd, if_pos inside, found, List.takeWhile_cons]
    simp only [Option.bind_eq_bind, Option.bind_some, agrees]
    cases p line with
    | false => rfl
    | true =>
      rw [if_pos rfl, if_pos rfl, ih next, List.length_cons, Nat.add_assoc, Nat.add_comm 1]

/-- A reading of a line, with the failure at that line. -/
theorem atLine_eq {α : Type} {left : α → List Char} {place : List Char}
    {reading : Except Stop α} {cutting : Cutting Mismatch α} (index : Nat)
    (h : Follows line place left id reading cutting) :
    atLine index cutting = unbroken (LineMismatch.atLine index line reading) := by
  rw [h.same]
  cases reading <;> rfl

theorem atLine_failAt {α : Type} (index : Nat) (expected : Expectation) (inside : rest <:+ line) :
    atLine index (failAt (α := α) line (offset line rest) expected) =
      unbroken (LineMismatch.atLine index line (.error ⟨expected, rest⟩)) := by
  rw [failAt_offset inside]
  rfl

/-- The line of a part is a parameter from its front on. -/
theorem parameter_whole (line : List Char) : Follows line line (fun _ => []) id
    (Comment.parameter limit Grammar.name line) (parameter line limit false 0) := by
  have follows := parameter_follows limit slotName_follows (List.suffix_rfl (l := line))
  rwa [offset_self] at follows

theorem subparams_eq (here : block.drop i = lines) : subparams limit block i =
    unbroken ((Comment.subparams limit i (lines.takeWhile isInnerText)).map fun ps =>
      (ps, i + (lines.takeWhile isInnerText).length)) := by
  induction lines generalizing i with
  | nil =>
    rw [subparams, if_neg (not_lt_of_drop_nil here)]
    rfl
  | cons line lines ih =>
    obtain ⟨inside, found, next⟩ := drop_cons here
    rw [subparams, if_pos inside, found, lift_some, pure_bind, isInner?_eq, List.takeWhile_cons]
    cases isInnerText line with
    | false => rfl
    | true =>
      have read := atLine_eq i (parameter_whole limit line)
      have rest := ih next
      simp only [lift_some, pure_bind, if_true, List.length_cons, Comment.subparams, read]
      cases LineMismatch.atLine i line (Comment.parameter limit Grammar.name line) with
      | error e => rfl
      | ok p =>
        simp only [unbroken_ok, pure_bind, rest]
        cases Comment.subparams limit (i + 1) (lines.takeWhile isInnerText) with
        | error e => rfl
        | ok ps =>
          have behind : i + ((lines.takeWhile isInnerText).length + 1) =
              i + 1 + (lines.takeWhile isInnerText).length := by omega
          rw [behind]
          rfl

theorem linesBetween?_drop {part : List (List Char)} (here : block.drop i = lines)
    (initial : part <+: lines) (inside : i ≤ block.length) :
    linesBetween? block i (i + part.length) = some part := by
  have fits := initial.length_le
  rw [← here, List.length_drop] at fits
  rw [linesBetween?, if_pos ⟨by omega, by omega⟩, here, Nat.add_sub_cancel_left,
    ← List.prefix_iff_eq_take.mp initial]

theorem linesBetween?_length (here : block.drop i = lines) (inside : i ≤ block.length) :
    linesBetween? block i block.length = some lines := by
  have rest := linesBetween?_drop here (List.prefix_refl lines) inside
  have last : i + lines.length = block.length := by
    rw [← here, List.length_drop]
    omega
  rwa [last] at rest

theorem mapM_eq_some_map {α β : Type} {f : α → Option β} {g : α → β} {xs : List α}
    (h : ∀ x ∈ xs, f x = some (g x)) : xs.mapM f = some (xs.map g) := by
  induction xs with
  | nil => rfl
  | cons x xs ih =>
    rw [List.mapM_cons, h x List.mem_cons_self, ih fun y mem => h y (List.mem_cons_of_mem x mem)]
    rfl

/-- The blank in front of an indented line is one byte long. -/
theorem afterBytes?_one_of_isInnerText (h : isInnerText line = true) :
    afterBytes? 1 line = some (line.drop 1) := by
  cases line with
  | nil => cases h
  | cons c cs =>
    have blank : isBlank c = true := by
      simp only [isInnerText, Bool.and_eq_true] at h
      simpa using h.1.1
    have size : byteLength [c] = 1 := by
      simp only [isBlank, Bool.or_eq_true, decide_eq_true_eq] at blank
      rcases blank with rfl | rfl <;> rfl
    have cut := afterBytes?_byteLength [c] cs
    rwa [size] at cut

/-- A failure at the front of a line. -/
theorem atLine_front {α : Type} (index : Nat) (expected : Expectation) (line : List Char) :
    atLine index (failAt (α := α) line 0 expected) =
      unbroken (LineMismatch.atLine index line (.error ⟨expected, line⟩)) := by
  have fail := atLine_failAt (α := α) index expected (List.suffix_rfl (l := line))
  rwa [offset_self] at fail

theorem bodyText_eq (here : block.drop i = lines) (inside : i ≤ block.length) : bodyText block i =
    unbroken ((Comment.bodyText i (lines.takeWhile isInnerText) (lines.head?.getD [])).map
      fun text => (text, i + (lines.takeWhile isInnerText).length)) := by
  have next : block[i]? = lines.head? := by rw [← here, List.head?_drop]
  rw [bodyText, runEnd_eq isInner?_eq here, lift_some, pure_bind, next, Comment.bodyText]
  by_cases none : lines.takeWhile isInnerText = []
  · rw [if_pos none, none, if_pos (by rfl), atLine_front]
    rfl
  · have some_ := List.length_pos_iff.mpr none
    have taken := linesBetween?_drop here (List.takeWhile_prefix isInnerText) inside
    have cut : (lines.takeWhile isInnerText).mapM (afterBytes? 1) =
        some ((lines.takeWhile isInnerText).map (List.drop 1)) :=
      mapM_eq_some_map fun line mem => afterBytes?_one_of_isInnerText (List.mem_takeWhile_imp mem)
    rw [if_neg none, if_neg (by omega), taken, lift_some, pure_bind, cut, lift_some, pure_bind,
      List.map_map]
    rfl

/-! ## Blocks -/

theorem clause_eq {indented : List (List Char)}
    (here : block.drop i = line :: lines) (split : splitTag line = some (tag, text))
    (owned : indented = if tag.hasBody then lines.takeWhile isInnerText else []) :
    clause limit block i line tag (offset line text) =
      unbroken ((Comment.clause limit i line tag text indented (lines.head?.getD [])).map
        fun c => (c, i + 1 + indented.length)) := by
  subst owned
  obtain ⟨below, -, next⟩ := drop_cons here
  have after := splitTag_suffix split
  have nothing := atLine_eq i (nothingMore_follows after)
  have body := bodyText_eq next below
  cases tag with
  | param =>
    have read := atLine_eq i (parameter_follows limit slotName_follows_paramName after)
    have parts := subparams_eq limit next
    simp only [clause, Comment.clause, Tag.hasBody, if_true, read, parts]
    cases LineMismatch.atLine i line (Comment.parameter limit LuaType.paramName text) with
    | error e => rfl
    | ok p => cases Comment.subparams limit (i + 1) (lines.takeWhile isInnerText) <;> rfl
  | returns =>
    have read := atLine_eq i (returned_follows limit after)
    simp only [clause, Comment.clause, Tag.hasBody, read]
    cases LuaType.readWithin limit text <;> rfl
  | privateMark | deprecatedMark =>
    simp only [clause, Comment.clause, Tag.hasBody, nothing]
    cases LineMismatch.atLine i line (Grammar.nothingMore text) <;> rfl
  | sample | note =>
    simp only [clause, Comment.clause, Tag.hasBody, if_true, nothing, body]
    cases LineMismatch.atLine i line (Grammar.nothingMore text) with
    | error e => rfl
    | ok _ =>
      cases Comment.bodyText (i + 1) (lines.takeWhile isInnerText) (lines.head?.getD []) <;> rfl
  | _ => exact atLine_failAt i .functionTag (List.dropWhile_suffix _)

theorem clauses_eq (here : block.drop i = lines) :
    clauses limit block i = unbroken (Comment.clauses limit i lines) := by
  fun_induction Comment.clauses limit i lines with
  | case1 i =>
    rw [clauses, if_neg (not_lt_of_drop_nil here)]
    rfl
  | case2 i line rest blank ih =>
    obtain ⟨inside, found, next⟩ := drop_cons here
    rw [clauses, if_pos inside, found, lift_some, pure_bind, if_pos blank, ih next]
  | case3 i line rest inked untagged =>
    obtain ⟨inside, found, -⟩ := drop_cons here
    rw [clauses, if_pos inside, found, lift_some, pure_bind, if_neg inked, tagAt?_eq, tag?,
      untagged]
    exact atLine_front i .aTag line
  | case4 i line rest inked tag text split indented ih =>
    obtain ⟨inside, found, next⟩ := drop_cons here
    have behind := tagEnd?_eq split
    have read := clause_eq limit here split (Eq.refl indented)
    have below : block.drop (i + 1 + indented.length) = rest.drop indented.length := by
      rw [← next, List.drop_drop]
    rw [clauses, if_pos inside, found, lift_some, pure_bind, if_neg inked, tagAt?_eq, tag?, split,
      behind]
    simp only [Option.map_some, lift_some, pure_bind, read]
    cases Comment.clause limit i line tag text indented (rest.head?.getD []) with
    | error e => rfl
    | ok c =>
      -- a clause takes its own line at least, so the loop gets on
      have further : i < i + 1 + indented.length := by omega
      simp only [Except.map, unbroken_ok, pure_bind, if_pos further, ih below]
      cases Comment.clauses limit (i + 1 + indented.length) (rest.drop indented.length) <;> rfl

theorem summary_eq (block : List (List Char)) : summary block =
    some ((summaryAndClauses block).1, (summaryAndClauses block).2.1) := by
  have skipped : runEnd block (fun line => some (isEmptyText line)) 0 =
      some (block.takeWhile isEmptyText).length := by
    rw [runEnd_eq (fun _ => rfl) List.drop_zero, Nat.zero_add]
  rw [summary, skipped, summaryAndClauses]
  cases eq : block.drop (block.takeWhile isEmptyText).length with
  | nil =>
    have last := getElem?_of_drop_nil eq
    simp only [Option.bind_eq_bind, Option.bind_some, last]
    rfl
  | cons line rest =>
    obtain ⟨-, found, -⟩ := drop_cons eq
    simp only [Option.bind_eq_bind, Option.bind_some, found]
    rw [tagAt?_eq]
    cases tag? line <;> rfl

theorem drop_summaryAndClauses (block : List (List Char)) :
    block.drop (summaryAndClauses block).2.1 = (summaryAndClauses block).2.2 := by
  rw [summaryAndClauses]
  cases eq : block.drop (block.takeWhile isEmptyText).length with
  | nil => exact eq
  | cons line rest =>
    dsimp only
    split
    · exact (drop_cons eq).2.2
    · exact eq

theorem functionBlock_eq (name : String) (lines : List String) :
    functionBlock limit name lines = unbroken (functionBlockWithin limit name lines) := by
  rw [functionBlock, summary_eq, functionBlockWithin]
  simp only [lift_some, pure_bind, clauses_eq limit (drop_summaryAndClauses (lines.map body))]
  cases Comment.clauses limit (summaryAndClauses (lines.map body)).2.1
    (summaryAndClauses (lines.map body)).2.2 <;> rfl

theorem members_eq {markAllowed : Bool} (here : block.drop i = lines) :
    members limit block markAllowed i =
      unbroken (Comment.members limit i markAllowed lines) := by
  induction lines generalizing i markAllowed with
  | nil =>
    rw [members, if_neg (not_lt_of_drop_nil here)]
    rfl
  | cons line lines ih =>
    obtain ⟨inside, found, next⟩ := drop_cons here
    have misplaced : atLine i (failAt (α := Bool × List Field) line (indent line) .fieldTag) =
        unbroken (LineMismatch.atLine i line (.error ⟨.fieldTag, trimStart line⟩)) :=
      atLine_failAt i .fieldTag (List.dropWhile_suffix _)
    rw [members, if_pos inside, found, lift_some, pure_bind, tagAt?_eq, tag?, Comment.members]
    simp only [lift_some, pure_bind, misplaced]
    cases split : splitTag line with
    | none =>
      simp only [Option.map_none]
      by_cases empty : isEmptyText line
      · rw [if_pos empty, if_pos empty, ih next]
      · rw [if_neg empty, if_neg empty]
    | some read =>
      obtain ⟨tag, text⟩ := read
      have behind := tagEnd?_eq split
      have after := splitTag_suffix split
      simp only [Option.map_some, behind, lift_some, pure_bind]
      cases tag with
      | opaqueMark =>
        cases markAllowed with
        | false => rfl
        | true =>
          have nothing := atLine_eq i (nothingMore_follows after)
          simp only [if_true, nothing]
          cases LineMismatch.atLine i line (Grammar.nothingMore text) with
          | error e => rfl
          | ok _ =>
            simp only [unbroken_ok, pure_bind, ih next]
            cases Comment.members limit (i + 1) false lines <;> rfl
      | field =>
        have read := atLine_eq i (field_follows limit after)
        simp only [read]
        cases LineMismatch.atLine i line (Comment.field limit text) with
        | error e => rfl
        | ok f =>
          simp only [unbroken_ok, pure_bind, ih next]
          cases Comment.members limit (i + 1) false lines <;> rfl
      | _ => rfl

theorem classBlock_eq (lines : List String) :
    classBlock limit lines = unbroken (classBlockWithin limit lines) := by
  have first : runEnd (lines.map body) (fun line => (tagAt? line).map Option.isNone) 0 =
      some ((lines.map body).takeWhile fun line => (tag? line).isNone).length := by
    rw [runEnd_eq (fun line => congrArg (Option.map Option.isNone) (tagAt?_eq line)) List.drop_zero,
      Nat.zero_add]
  have initial := List.prefix_iff_eq_take.mp
    (List.takeWhile_prefix (fun line => (tag? line).isNone) (l := lines.map body))
  rw [classBlock, classBlockWithin]
  simp only [first, lift_some, pure_bind, List.head?_drop]
  generalize (lines.map body).takeWhile (fun line => (tag? line).isNone) = about at initial ⊢
  generalize (lines.map body)[about.length]?.getD [] = line
  rw [tagAt?_eq, tag?]
  cases split : splitTag line with
  | none => exact atLine_front about.length .classTag line
  | some read =>
    obtain ⟨tag, text⟩ := read
    have behind := tagEnd?_eq split
    have head := atLine_eq about.length (header_follows (splitTag_suffix split))
    have below : members limit (lines.map body) true (about.length + 1) =
        unbroken (Comment.members limit (about.length + 1) true
          ((lines.map body).drop (about.length + 1))) :=
      members_eq limit rfl
    simp only [Option.map_some, lift_some, pure_bind]
    cases tag with
    | classHeader =>
      simp only [behind, lift_some, pure_bind, head]
      cases LineMismatch.atLine about.length line (Comment.header text) with
      | error e => rfl
      | ok h =>
        simp only [unbroken_ok, pure_bind, below]
        cases Comment.members limit (about.length + 1) true
          ((lines.map body).drop (about.length + 1)) with
        | error e => rfl
        | ok found =>
          simp only [unbroken_ok, pure_bind]
          rw [← initial, atLine_front]
          change _ = unbroken (if found.2.isEmpty then _ else _)
          split <;> rfl
    | _ => exact atLine_front about.length .classTag line

theorem drop_length_takeWhile {α : Type} (p : α → Bool) (xs : List α) :
    xs.drop (xs.takeWhile p).length = xs.dropWhile p := by
  have split := List.takeWhile_append_dropWhile (p := p) (l := xs)
  calc xs.drop (xs.takeWhile p).length
    _ = (xs.takeWhile p ++ xs.dropWhile p).drop (xs.takeWhile p).length := by rw [split]
    _ = xs.dropWhile p := List.drop_left

theorem aliasBlock?_eq (lines : List String) :
    aliasBlock? lines = some (Comment.aliasBlock? lines) := by
  have first : runEnd (lines.map body)
      (fun line => (tagAt? line).map fun tag => tag ≠ some .aliasHeader) 0 =
      some ((lines.map body).takeWhile fun line => tag? line ≠ some .aliasHeader).length := by
    have agrees (line : List Char) :
        ((tagAt? line).map fun tag => decide (tag ≠ some .aliasHeader)) =
          some (decide (tag? line ≠ some .aliasHeader)) := by
      rw [tagAt?_eq]
      rfl
    rw [runEnd_eq agrees List.drop_zero, Nat.zero_add]
  rw [aliasBlock?, Comment.aliasBlock?]
  simp only [first, Option.bind_eq_bind, Option.bind_some, ← drop_length_takeWhile]
  cases eq : (lines.map body).drop ((lines.map body).takeWhile fun line =>
      tag? line ≠ some .aliasHeader).length with
  | nil =>
    rw [getElem?_of_drop_nil eq]
    rfl
  | cons line below =>
    obtain ⟨inside, found, next⟩ := drop_cons eq
    have tagged : tag? line = some .aliasHeader := by
      have first := List.head?_dropWhile_not (fun line => tag? line ≠ some .aliasHeader)
        (lines.map body)
      rw [← drop_length_takeWhile, eq] at first
      simpa using first
    obtain ⟨⟨tag, text⟩, split, -⟩ := Option.map_eq_some_iff.mp tagged
    have behind := tagEnd?_eq split
    have rest := linesBetween?_length next inside
    simp only [found, behind, Option.bind_some, afterBytes?_offset (splitTag_suffix split), rest,
      List.head?_cons, Option.map_some, List.drop_succ_cons, List.drop_zero, split]
    cases (below.filter fun line => !isEmptyText line).mapM fun line =>
      aliasValue? (trimEnd line) <;> rfl

theorem purpose_eq (lines : List String) (next : Option String) :
    purpose lines next = some (Purpose.ofBlock lines next) := by
  have tags : (lines.mapM fun line => tagAt? (body line)) =
      some (lines.map fun line => tag? (body line)) :=
    mapM_eq_some_map fun line _ => tagAt?_eq (body line)
  have has (tag : Tag) :
      some tag ∈ lines.map (fun line => tag? (body line)) ↔ tag ∈ blockTags lines := by
    simp [blockTags]
  have noTag : (∀ tag ∈ lines.map (fun line => tag? (body line)), tag = none) ↔
      blockTags lines = [] := by
    simp [blockTags]
  simp only [purpose, tags, Option.bind_eq_bind, Option.bind_some, has, noTag, Purpose.ofBlock]
  cases next.bind declaredName? <;> rfl

theorem outcome_eq (b : Block) : outcome b = some b.outcome := by
  rw [outcome, purpose_eq, Block.outcome]
  simp only [Option.bind_eq_bind, Option.bind_some]
  cases Purpose.ofBlock b.lines b.next with
  | functionNamed name =>
    simp only [functionBlock_eq, Comment.functionBlock]
    cases functionBlockWithin depthLimit name b.lines <;> rfl
  | someClass =>
    simp only [classBlock_eq, Comment.classBlock]
    cases classBlockWithin depthLimit b.lines <;> rfl
  | someAlias =>
    simp only [aliasBlock?_eq]
    cases Comment.aliasBlock? b.lines <;> rfl
  | nothing => cases b.next.bind declaredName? <;> rfl

/-- No check fails in a source, whatever stands in it. -/
theorem fileOfLines_eq (source : List String) :
    fileOfLines source = some (Comment.fileOfLines source) := by
  rw [fileOfLines, mapM_eq_some_map fun b _ => outcome_eq b]
  rfl

end AtOffset
end Annodoc
