import Annodoc.Proofs.Grammar.Offsets
import Annodoc.Proofs.LuaType.Parsing

/-!
# Types at byte offsets

The grammar of types at byte offsets: five rules are tried one after the other at one place, and a
failure is that of the rule that got furthest. Each rule follows the reader that settles by the first
word which form of a type is read.
-/

namespace Annodoc
open Text Grammar LuaType

/-- The types that have lists, as they are tried. -/
def listElements : List Element :=
  [⟨.string, nofun⟩, ⟨.integer, nofun⟩, ⟨.number, nofun⟩, ⟨.any, nofun⟩, ⟨.boolean, nofun⟩,
    ⟨.table, nofun⟩]

theorem mem_listElements (e : Element) : e ∈ listElements := by
  obtain ⟨k, h⟩ := e
  cases k <;> simp [listElements] at h ⊢

/-- The quote that a text begins with. -/
def quote? : List Char → Option Quote
  | '\'' :: _ => some .single
  | '"' :: _ => some .double
  | _ => none

namespace AtOffset

/-- A rule of the grammar at an offset. -/
abbrev Rule := Nat → Cutting Mismatch (LuaType × Nat)

/-- Of two failures the one that got further, the first of two at one place. -/
def further : Option Mismatch → Mismatch → Mismatch
  | none, e => e
  | some f, e => if f.position < e.position then e else f

variable (text : List Char) (nested : Rule)

/-- The first rule that reads a type. If none does, the failure that got furthest, or one at the
front when none got past it. What is too deep is never read as something else. -/
def firstOf (n : Nat) : Option Mismatch → List Rule → Cutting Mismatch (LuaType × Nat)
  | none, [] => failAt text n .aType
  | some e, [] => if n < e.position then throw e else failAt text n .aType
  | furthest, rule :: rules => tryCatch (rule n) fun e =>
      if e.expected = .shallowerType then throw e else firstOf n (some (further furthest e)) rules

/-- A list, of the first of the types whose name stands in front of brackets. -/
def listRule : List Element → Rule
  | [], n => failAt text n .aType
  | e :: es, n => do
    let behind ← literal? text e.val.text n
    let stop ← match behind with
      | some n => literal? text "[]" n
      | none => pure none
    match stop with
    | some stop => if byteIs text isIdent stop then listRule es n else return (.list e, stop)
    | none => listRule es n

/-- What follows `table` in a map. -/
def mapTail : Rule := fun n => do
  let n ← mark text '<' n
  let (key, n) ← nested n
  let n ← mark text ',' n
  let (value, n) ← nested n
  let n ← mark text '>' n
  return (.map key value, n)

/-- The name of a slot. That of a function's slot may be `...`. -/
def slotName (ofFunction : Bool) (n : Nat) : Cutting Mismatch (String × Nat) := do
  match ← literal? text "..." n with
  | some stop => if ofFunction then return ("...", stop) else name text n
  | none => name text n

def slot (ofFunction : Bool) (n : Nat) : Cutting Mismatch (Slot LuaType × Nat) := do
  let n ← skipBlanks text n
  let (name, n) ← slotName text ofFunction n
  let (optional, n) ← questionMark text n
  let n ← mark text ':' n
  let (type, n) ← nested n
  return (⟨name, optional, type⟩, n)

/-- What follows the opening brace of a table. -/
def tableTail : Rule := fun n => do
  let (slots, n) ← items text ',' (slot text nested false) n
  let n ← mark text '}' n
  return (.table slots, n)

def tableRule : Rule := fun n => do
  match ← literal? text "\x7b" n with
  | some n => tableTail text nested n
  | none => failAt text n .aType

/-- The slots of a function, which may have none. -/
def params (n : Nat) : Cutting Mismatch (List (Slot LuaType) × Nat) := do
  match ← mark? text ')' n with
  | some _ => return ([], n)
  | none => items text ',' (slot text nested true) n

/-- What follows `fun`. -/
def functionTail : Rule := fun n => do
  let n ← mark text '(' n
  let (params, n) ← params text nested n
  let n ← mark text ')' n
  match ← mark? text ':' n with
  | none => return (.function params none, n)
  | some n => do
    let (result, n) ← nested n
    return (.function params (some result), n)

/-- A type that begins with a word of its own. -/
def wordRule (word : String) (tail : Rule) : Rule := fun n => do
  match ← keyword? text word n with
  | some n => tail n
  | none => failAt text n .aType

/-- The offset behind the further parts of a dotted name. -/
def dottedEnd (n : Nat) : Cutting Mismatch Nat := do
  match ← literal? text "." n with
  | none => return n
  | some _ => do
    let stop ← identEnd text (n + 1)
    if n + 1 < stop then
      if stop ≤ byteLength text then dottedEnd stop else broken
    else return n
termination_by byteLength text - n
decreasing_by omega

/-- The name with dots between two offsets. Brackets behind it make it a list. -/
def dottedName (n last : Nat) : Cutting Mismatch (LuaType × Nat) := do
  let brackets ← literal? text "[]" last
  let written ← between? text n (brackets.getD last)
  let parts := (written.takeWhile (· ≠ '[')).splitOn '.'
  return (.named (parts.map String.ofList) brackets.isSome, brackets.getD last)

/-- A text between quotes, a name with dots, a keyword or digits. -/
def primitiveRule : Rule := fun n => do
  let rest ← afterBytes? n text
  match quote? rest with
  | some q => do
    let inner ← afterBytes? 1 rest
    match findOffset? (· = q.char) inner with
    | some close => do
      let stop := n + close + 2
      let written ← between? text n stop
      return (.literal q (String.ofList (written.drop 1).dropLast), stop)
    | none => failAt text n .aType
  | none => do
    let stop ← identEnd text n
    if stop = n then failAt text n .aType else do
    let last ← dottedEnd text stop
    let word ← between? text n last
    if stop < last then dottedName text n last else
      match Keyword.ofText? (String.ofList word) with
      | some k => return (.keyword k, last)
      | none =>
        if word.all Char.isDigit then return (.number (String.ofList word), last)
        else failAt text n .aType

/-- The rules, as they are tried. -/
def rules : List Rule :=
  [listRule text listElements, wordRule text "table" (mapTail text nested), tableRule text nested,
    wordRule text "fun" (functionTail text nested), primitiveRule text]

/-- A type that is no union. -/
def single : Rule := fun n => do
  let n ← skipBlanks text n
  firstOf text n none (rules text nested)

/-- A type that nests less than `limit` deep, after blanks. -/
def typeWithin : Nat → Rule
  | 0, n => do
    let n ← skipBlanks text n
    failAt text n .shallowerType
  | limit + 1, n => do
    let (members, n) ← items text '|' (single text (typeWithin limit)) n
    return (ofAlternatives members, n)

/-! ## Trying rules -/

variable {text} {nested : Rule} {n : Nat} {rule : Rule} {before more : List Rule}
  {furthest : Option Mismatch} {e : Mismatch} {cs rest : List Char}

/-- A rule that does not begin at an offset. -/
def Misses (text : List Char) (n : Nat) (rule : Rule) : Prop := rule n = failAt text n .aType

/-- A rule that fails at an offset, but not for the depth of what it reads. -/
def Fails (n : Nat) (rule : Rule) : Prop :=
  ∃ e, rule n = throw e ∧ e.expected ≠ .shallowerType

theorem Misses.fails (h : Misses text (offset text cs) rule) (inside : cs <:+ text) :
    Fails (offset text cs) rule :=
  ⟨_, h.trans (failAt_offset inside _), nofun⟩

theorem firstOf_ok {found : LuaType × Nat} (h : rule n = pure found) :
    firstOf text n furthest (rule :: more) = pure found := by
  rw [firstOf, h]
  rfl

theorem firstOf_error (h : rule n = throw e) : firstOf text n furthest (rule :: more) =
    if e.expected = .shallowerType then throw e
    else firstOf text n (some (further furthest e)) more := by
  rw [firstOf, h]
  rfl

/-- Rules that fail for no depth are passed by. -/
theorem exists_firstOf_append (failing : ∀ rule ∈ before, Fails n rule) : ∃ furthest',
    ∀ more, firstOf text n furthest (before ++ more) = firstOf text n furthest' more := by
  induction before generalizing furthest with
  | nil => exact ⟨furthest, fun _ => rfl⟩
  | cons first before ih =>
    obtain ⟨e, fails, shallow⟩ := failing first List.mem_cons_self
    obtain ⟨furthest', same⟩ := @ih (some (further furthest e)) fun rule mem =>
      failing rule (List.mem_cons_of_mem _ mem)
    refine ⟨furthest', fun more => ?_⟩
    rw [List.cons_append, firstOf_error fails, if_neg shallow, same]

/-- The first rule that reads a type settles it. -/
theorem firstOf_found {found : LuaType × Nat} (failing : ∀ rule ∈ before, Fails n rule)
    (h : rule n = pure found) : firstOf text n furthest (before ++ rule :: more) = pure found := by
  obtain ⟨furthest', same⟩ := exists_firstOf_append failing
  rw [same, firstOf_ok h]

/-- What is too deep stops the search. -/
theorem firstOf_tooDeep (failing : ∀ rule ∈ before, Fails n rule) (h : rule n = throw e)
    (deep : e.expected = .shallowerType) :
    firstOf text n furthest (before ++ rule :: more) = throw e := by
  obtain ⟨furthest', same⟩ := exists_firstOf_append failing
  rw [same, firstOf_error h, if_pos deep]

/-- No failure got past an offset. -/
def AtFront (n : Nat) (furthest : Option Mismatch) : Prop := ∀ e ∈ furthest, e.position ≤ n

theorem atFront_none : AtFront n none := by simp [AtFront]

theorem further_eq (front : AtFront n furthest) (h : n < e.position) : further furthest e = e := by
  cases furthest with
  | none => rfl
  | some f => exact if_pos (Nat.lt_of_le_of_lt (front f rfl) h)

theorem AtFront.further (front : AtFront n furthest) (h : e.position ≤ n) :
    AtFront n (some (further furthest e)) := by
  rintro _ ⟨⟩
  cases furthest with
  | none => exact h
  | some f =>
    rw [AtOffset.further]
    split
    · exact h
    · exact front f rfl

/-- Which of the failures at the front is kept makes no difference. -/
theorem firstOf_front {other : Option Mismatch} (front : AtFront n furthest)
    (front' : AtFront n other) : firstOf text n furthest more = firstOf text n other more := by
  induction more generalizing furthest other with
  | nil =>
    have none {furthest : Option Mismatch} (front : AtFront n furthest) :
        firstOf text n furthest [] = failAt text n .aType := by
      cases furthest with
      | none => rfl
      | some e => exact if_neg (Nat.not_lt.mpr (front e rfl))
    rw [none front, none front']
  | cons rule more ih =>
    have same (e : Mismatch) : firstOf text n (some (further furthest e)) more =
        firstOf text n (some (further other e)) more := by
      by_cases past : n < e.position
      · rw [further_eq front past, further_eq front' past]
      · have here := Nat.not_lt.mp past
        exact ih (front.further here) (front'.further here)
    simp only [firstOf, same]

/-- Rules that do not begin at an offset change nothing there. -/
theorem firstOf_misses (furthest : Option Mismatch) (more : List Rule) (inside : cs <:+ text)
    (missing : ∀ rule ∈ before, Misses text (offset text cs) rule) :
    firstOf text (offset text cs) furthest (before ++ more) =
      firstOf text (offset text cs) furthest more := by
  induction before generalizing furthest with
  | nil => rfl
  | cons first before ih =>
    have misses := (missing first List.mem_cons_self).trans (failAt_offset inside _)
    rw [List.cons_append, firstOf_error misses, if_neg nofun,
      ih _ fun rule mem => missing rule (List.mem_cons_of_mem _ mem)]
    by_cases front : AtFront (offset text cs) furthest
    · exact firstOf_front (front.further (Nat.le_refl _)) front
    · cases furthest with
      | none => exact absurd atFront_none front
      | some f =>
        have past : ¬ f.position ≤ offset text cs := by simpa [AtFront] using front
        have kept : further (some f) (Stop.inText text ⟨.aType, cs⟩) = f :=
          if_neg fun lt => past (Nat.le_of_lt lt)
        rw [kept]

theorem firstOf_none (inside : cs <:+ text)
    (missing : ∀ rule ∈ more, Misses text (offset text cs) rule) :
    firstOf text (offset text cs) none more = failAt text (offset text cs) .aType := by
  have skipped := firstOf_misses none [] inside missing
  rwa [List.append_nil] at skipped

/-- When one rule begins at an offset and no other, what it finds is the result. -/
theorem firstOf_only {x : Except Stop (LuaType × List Char)} (inside : cs <:+ text)
    (front : ∀ rule ∈ before, Misses text (offset text cs) rule)
    (back : ∀ rule ∈ more, Misses text (offset text cs) rule)
    (past : ∀ s, x = .error s → offset text cs < offset text s.rest)
    (same : rule (offset text cs) = atOffsets text (leavingAt text) x) :
    firstOf text (offset text cs) none (before ++ rule :: more) =
      atOffsets text (leavingAt text) x := by
  rw [firstOf_misses none _ inside front]
  cases x with
  | ok found => exact firstOf_ok same
  | error s =>
    rw [firstOf_error same, further_eq atFront_none (past s rfl)]
    split
    · rfl
    · have skipped := firstOf_misses (some (s.inText text)) [] inside back
      rw [List.append_nil] at skipped
      rw [skipped]
      exact if_pos (past s rfl)

end AtOffset
end Annodoc
