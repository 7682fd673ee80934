import Annodoc.Comment.ClassBlock
import Annodoc.Proofs.LuaType.OffsetTypes
import Mathlib.Data.List.DropRight

/-!
# Lines at byte offsets

The grammar of the lines of a block at byte offsets: parameters, headers and fields.
-/

namespace Annodoc
open Text Grammar LuaType Comment

namespace AtOffset

variable (line : List Char) (limit : Nat)

/-- The description behind a type. -/
def descriptionAt (n : Nat) : Cutting Mismatch String := do
  let rest ← afterBytes? n line
  return description rest

/-- A parameter. Only one of the function itself may be named `...`. -/
def parameter (ofFunction : Bool) (n : Nat) : Cutting Mismatch Param := do
  let n ← skipBlanks line n
  let (name, n) ← slotName line ofFunction n
  let (optional, n) ← questionMark line n
  let (type, n) ← typeWithin line limit n
  let desc ← descriptionAt line n
  return ⟨name, type.ofPlace optional, desc, []⟩

/-- A type and a description. -/
def returned (n : Nat) : Cutting Mismatch Return := do
  let (type, n) ← typeWithin line limit n
  let desc ← descriptionAt line n
  return ⟨type, desc⟩

/-- The characters at an offset up to the first one with a property, and the offset behind them. -/
def upTo (p : Char → Bool) (expected : Expectation) (n : Nat) :
    Cutting Mismatch (String × Nat) := do
  let rest ← afterBytes? n line
  let length := (findOffset? p rest).getD (byteLength line - n)
  if length = 0 then failAt line n expected else do
  let found ← between? line n (n + length)
  return (String.ofList found, n + length)

/-- The parent after a colon, if there is one. -/
def parentClass (n : Nat) : Cutting Mismatch (Option String × Nat) := do
  let n ← skipBlanks line n
  match ← literal? line ":" n with
  | none => return (none, n)
  | some n => do
    let n ← skipBlanks line n
    let (parent, n) ← upTo line isSpace .parentName n
    return (some parent, n)

def header (n : Nat) : Cutting Mismatch Header := do
  let n ← skipBlanks line n
  let (isExact, n) ← match ← literal? line "(exact)" n with
    | some n => do
      let n ← skipBlanks line n
      pure (true, n)
    | none => pure (false, n)
  let (name, n) ← upTo line (fun c => isSpace c || c = ':') .className n
  let (parent, n) ← parentClass line n
  nothingMore line n
  return ⟨name, parent, isExact⟩

/-- A field with a type in brackets for its keys. -/
def keyedField (n : Nat) : Cutting Mismatch Field := do
  match ← literal? line "[" n with
  | none => failAt line n (.token '[')
  | some n => do
    let (key, n) ← typeWithin line limit n
    let n ← mark line ']' n
    let (type, n) ← typeWithin line limit n
    let desc ← descriptionAt line n
    return ⟨.keyed key, type, desc⟩

/-- What follows the name of a field. -/
def fieldTail (scope : Option Scope) (name : String) (n : Nat) : Cutting Mismatch Field := do
  let (optional, n) ← questionMark line n
  let (type, n) ← typeWithin line limit n
  let desc ← descriptionAt line n
  return ⟨.named name scope, type.ofPlace optional, desc⟩

def namedField (scope : Option Scope) (n : Nat) : Cutting Mismatch Field := do
  let (name, n) ← name line n
  fieldTail line limit scope name n

/-- A field after a scope. What is wanted in place of another word is not kept, since a field with
keys fails there first. -/
def scopedField (n : Nat) : Cutting Mismatch Field := do
  let (word, stop) ← name line n
  match Scope.ofText? word with
  | none => failAt line n .aName
  | some scope => do
    let n ← skipBlanks line stop
    namedField line limit (some scope) n

/-- The first shape of a field that is read after others failed, or the furthest failure. -/
def otherShape (n : Nat) : Mismatch → List (Nat → Cutting Mismatch Field) → Cutting Mismatch Field
  | furthest, [] => throw furthest
  | furthest, shape :: shapes =>
    tryCatch (shape n) fun e => otherShape n (further (some furthest) e) shapes

def field (n : Nat) : Cutting Mismatch Field := do
  let n ← skipBlanks line n
  tryCatch (keyedField line limit n) fun e =>
    otherShape n e [scopedField line limit, namedField line limit none]

/-! ## What the lines follow -/

variable {line} {cs rest : List Char}

theorem descriptionAt_offset (inside : cs <:+ line) :
    descriptionAt line (offset line cs) = pure (description cs) := by
  rw [descriptionAt, afterBytes?_offset inside, lift_some, pure_bind]

/-- A type and its description, and what is made of them. -/
theorem typed_follows {α : Type} (f : LuaType → String → α) (inside : cs <:+ line) :
    Follows line cs (fun _ => []) id
      (do
        let (type, rest) ← readWithin limit cs
        .ok (f type (description rest)))
      (do
        let (type, n) ← typeWithin line limit (offset line cs)
        let desc ← descriptionAt line n
        return f type desc) := by
  apply ((typeWithin_follows limit inside).mono (dropBlanks_suffix cs)).bind inside
  rintro ⟨type, rest⟩ - (inside : rest <:+ line)
  dsimp only
  rw [descriptionAt_offset inside, pure_bind]
  exact .ok List.nil_suffix

theorem returned_follows (inside : cs <:+ line) :
    Follows line cs (fun _ => []) id
      (do
        let (type, rest) ← readWithin limit cs
        .ok ⟨type, description rest⟩)
      (returned line limit (offset line cs)) :=
  typed_follows limit Return.mk inside

theorem parameter_follows {nm : Reader String} {ofFunction : Bool}
    (names : FollowsReader line nm (slotName line ofFunction)) (inside : cs <:+ line) :
    Follows line cs (fun _ => []) id (Comment.parameter limit nm cs)
      (parameter line limit ofFunction (offset line cs)) := by
  rw [parameter, skipBlanks_offset inside, pure_bind]
  have inside := (dropBlanks_suffix cs).trans inside
  apply Follows.mono _ (dropBlanks_suffix cs)
  apply (names _ inside).bind inside
  rintro ⟨name, rest⟩ - (inside : rest <:+ line)
  dsimp only
  rw [questionMark_offset inside, pure_bind]
  have left := questionMark_suffix rest
  apply Follows.mono _ left
  exact typed_follows limit
    (fun type desc => (⟨name, type.ofPlace (Grammar.questionMark rest).1, desc, []⟩ : Param))
    (left.trans inside)

theorem upTo_follows (p : Char → Bool) (expected : Expectation) (inside : cs <:+ line) :
    Follows line cs Prod.snd (leavingAt line)
      (if cs.takeWhile (fun c => !p c) = [] then .error ⟨expected, cs⟩
        else .ok (String.ofList (cs.takeWhile fun c => !p c), cs.dropWhile fun c => !p c))
      (upTo line p expected (offset line cs)) := by
  have split := List.takeWhile_append_dropWhile (p := fun c => !p c) (l := cs)
  have left : byteLength line - offset line cs = byteLength cs := by
    obtain ⟨before, rfl⟩ := inside
    simp [offset]
  rw [upTo, afterBytes?_offset inside, lift_some, pure_bind, left, findOffset?_getD]
  dsimp only
  by_cases empty : cs.takeWhile (fun c => !p c) = []
  · rw [if_pos empty, empty, if_pos (by rfl), failAt_offset inside]
    exact .error List.suffix_rfl
  · have size := byteLength_pos empty
    have behind := offset_append (split.symm ▸ inside)
    have cut := between?_offset (split.symm ▸ inside)
    rw [split] at behind cut
    rw [if_neg empty, if_neg (by omega), ← behind, cut]
    exact .ok (List.dropWhile_suffix _)

/-- Blanks in front make no difference to where nothing more may stand. -/
theorem nothingMore_dropBlanks (cs : List Char) :
    Grammar.nothingMore (dropBlanks cs) = Grammar.nothingMore cs := by
  have same : isEmptyText (dropBlanks cs) = isEmptyText cs := by
    have blanks : (cs.takeWhile isBlank).all isSpace = true :=
      List.all_eq_true.mpr fun c mem => isSpace_of_isBlank (List.mem_takeWhile_imp mem)
    have split := List.takeWhile_append_dropWhile (p := isBlank) (l := cs)
    conv_rhs => rw [← split]
    rw [isEmptyText, isEmptyText, List.all_append, blanks, Bool.true_and]
    rfl
  rw [Grammar.nothingMore, Grammar.nothingMore, same, dropBlanks, dropBlanks,
    List.dropWhile_idempotent]

/-- The parent, and nothing behind it. -/
theorem parentClass_follows {α : Type} (f : Option String → α) (inside : cs <:+ line) :
    Follows line cs (fun _ => []) id
      (do
        let (parent, rest) ← Comment.parentClass cs
        Grammar.nothingMore rest
        .ok (f parent))
      (do
        let (parent, n) ← parentClass line (offset line cs)
        nothingMore line n
        return f parent) := by
  have left := dropBlanks_suffix cs
  have colon : literal? line ":" (offset line (dropBlanks cs)) =
      pure ((Grammar.mark? ':' cs).map (offset line)) := by
    rw [mark?_eq]
    exact literal?_offset _ (left.trans inside)
  rw [parentClass, skipBlanks_offset inside, pure_bind, Comment.parentClass, colon, pure_bind]
  cases found : Grammar.mark? ':' cs with
  | none =>
    dsimp only [Option.map_none]
    apply Follows.mono _ left
    have follows := nothingMore_follows (left.trans inside)
    rw [nothingMore_dropBlanks] at follows
    exact follows.bind (left.trans inside) fun _ _ _ => .ok List.nil_suffix
  | some rest =>
    have after := (mark?_suffix found).trans left
    have word := (dropBlanks_suffix rest).trans after
    have read := upTo_follows isSpace .parentName (word.trans inside)
    dsimp only [Option.map_some]
    rw [skipBlanks_offset (after.trans inside), pure_bind]
    apply Follows.mono _ word
    by_cases empty : wordPart (dropBlanks rest) = []
    · rw [wordPart] at empty
      rw [if_pos empty] at read
      rw [read.same, wordPart, if_pos empty]
      exact .error List.suffix_rfl
    · rw [wordPart] at empty
      rw [if_neg empty] at read
      have behind := read.left_suffix _ rfl
      have left := behind.trans (word.trans inside)
      rw [read.same, wordPart, if_neg empty]
      apply Follows.mono _ behind
      exact (nothingMore_follows left).bind left fun _ _ _ => .ok List.nil_suffix

/-- The name of a class, and what may follow it. -/
theorem className_follows (isExact : Bool) (inside : cs <:+ line) :
    Follows line cs (fun _ => []) id
      (let inName (c : Char) : Bool := !isSpace c && c ≠ ':'
        let name := cs.takeWhile inName
        if name = [] then .error ⟨.className, cs⟩ else do
          let (parent, rest) ← Comment.parentClass (cs.dropWhile inName)
          Grammar.nothingMore rest
          .ok (⟨String.ofList name, parent, isExact⟩ : Header))
      (do
        let (name, n) ← upTo line (fun c => isSpace c || c = ':') .className (offset line cs)
        let (parent, n) ← parentClass line n
        nothingMore line n
        return (⟨name, parent, isExact⟩ : Header)) := by
  have same : (fun c => !(isSpace c || decide (c = ':'))) =
      fun c => !isSpace c && decide (c ≠ ':') := by
    funext c
    rw [Bool.not_or, decide_not]
  have read := upTo_follows (fun c => isSpace c || c = ':') .className inside
  rw [same] at read
  dsimp only
  by_cases empty : (cs.takeWhile fun c => !isSpace c && decide (c ≠ ':')) = []
  · rw [if_pos empty] at read ⊢
    rw [read.same]
    exact .error List.suffix_rfl
  · rw [if_neg empty] at read ⊢
    have behind := read.left_suffix _ rfl
    rw [read.same]
    exact (parentClass_follows (fun parent => (⟨_, parent, isExact⟩ : Header))
      (behind.trans inside)).mono behind

theorem header_follows (inside : cs <:+ line) : Follows line cs (fun _ => []) id
    (Comment.header cs) (header line (offset line cs)) := by
  have front := dropBlanks_suffix cs
  rw [header, skipBlanks_offset inside, pure_bind, literal?_offset _ (front.trans inside),
    pure_bind, Comment.header]
  cases found : Grammar.literal? "(exact)" (dropBlanks cs) with
  | none => exact (className_follows false (front.trans inside)).mono front
  | some rest =>
    have after : rest <:+ cs := List.IsSuffix.trans ⟨_, (literal?_eq_some_iff.mp found).symm⟩ front
    have behind := (dropBlanks_suffix rest).trans after
    dsimp only [Option.map_some]
    rw [skipBlanks_offset (after.trans inside)]
    exact (className_follows true (behind.trans inside)).mono behind

/-! ## Fields -/

theorem fieldTail_follows (scope : Option Scope) (name : String) (inside : cs <:+ line) :
    Follows line cs (fun _ => []) id (Comment.namedField limit scope name cs)
      (fieldTail line limit scope name (offset line cs)) := by
  rw [fieldTail, questionMark_offset inside, pure_bind]
  have left := questionMark_suffix cs
  apply Follows.mono _ left
  exact typed_follows limit
    (fun type desc => (⟨.named name scope, type.ofPlace (Grammar.questionMark cs).1, desc⟩ : Field))
    (left.trans inside)

theorem fieldWithScope_follows (scope : Scope) (inside : cs <:+ line) :
    Follows line cs (fun _ => []) id (Comment.fieldWithScope limit scope cs)
      (do
        let n ← skipBlanks line (offset line cs)
        namedField line limit (some scope) n) := by
  rw [skipBlanks_offset inside, pure_bind]
  have inside := (dropBlanks_suffix cs).trans inside
  apply Follows.mono _ (dropBlanks_suffix cs)
  apply (name_follows _ inside).bind inside
  rintro ⟨name, rest⟩ - inside
  exact fieldTail_follows limit (some scope) name inside

theorem keyedField_follows (inside : '[' :: cs <:+ line) :
    Follows line cs (fun _ => []) id (Comment.keyedField limit cs)
      (keyedField line limit (offset line ('[' :: cs))) := by
  have found : Grammar.literal? "[" ('[' :: cs) = some cs := literal?_eq_some_iff.mpr rfl
  rw [keyedField, literal?_offset _ inside, found, pure_bind]
  have inside := (List.suffix_cons _ _).trans inside
  apply ((typeWithin_follows limit inside).mono (dropBlanks_suffix cs)).bind inside
  rintro ⟨key, rest⟩ - inside
  apply (mark_follows _ inside).bind inside
  rintro rest - inside
  exact typed_follows limit (fun type desc => (⟨.keyed key, type, desc⟩ : Field)) inside

/-- A shape that fails no further than those before it changes nothing. -/
theorem otherShape_throw {n : Nat} {furthest e : Mismatch} {shape : Nat → Cutting Mismatch Field}
    {shapes : List (Nat → Cutting Mismatch Field)} (h : shape n = throw e) :
    otherShape n furthest (shape :: shapes) =
      otherShape n (if furthest.position < e.position then e else furthest) shapes := by
  rw [otherShape, h]
  rfl

theorem otherShape_pure {n : Nat} {furthest : Mismatch} {shape : Nat → Cutting Mismatch Field}
    {shapes : List (Nat → Cutting Mismatch Field)} {f : Field} (h : shape n = pure f) :
    otherShape n furthest (shape :: shapes) = pure f := by
  rw [otherShape, h]
  rfl

theorem offset_lt_of_name {word : String} (h : Grammar.name cs = .ok (word, rest))
    (inside : cs <:+ line) : offset line cs < offset line rest := by
  obtain ⟨named, rfl, -⟩ := name_eq_ok_iff.mp h
  rw [offset_append inside]
  exact Nat.lt_add_of_pos_right (byteLength_pos named.1.1)

/-- Without a name only the failure for a bracket is kept. -/
theorem otherShape_unnamed {s : Stop} {e : Mismatch}
    (read : Grammar.name cs = .error s) (inside : cs <:+ line)
    (furthest : offset line cs ≤ e.position) :
    otherShape (offset line cs) e [scopedField line limit, namedField line limit none] =
      throw e := by
  have name := (name_follows cs inside).same
  rw [read, Grammar.name_error read] at name
  have withScope : scopedField line limit (offset line cs) =
      throw (Stop.inText line ⟨.aName, cs⟩) := by
    rw [scopedField, name]
    rfl
  have plain : namedField line limit none (offset line cs) =
      throw (Stop.inText line ⟨.aName, cs⟩) := by
    rw [namedField, name]
    rfl
  have front : ¬ e.position < (Stop.inText line ⟨.aName, cs⟩).position := Nat.not_lt.mpr furthest
  rw [otherShape_throw withScope, if_neg front, otherShape_throw plain, if_neg front]
  rfl

theorem inText_laterStop {a b : Stop} (ha : a.rest <:+ line) (hb : b.rest <:+ line) :
    (laterStop a b).inText line =
      if (a.inText line).position < (b.inText line).position then b.inText line
      else a.inText line := by
  have places : (a.inText line).position < (b.inText line).position ↔
      b.rest.length < a.rest.length := offset_lt_iff ha hb
  rw [laterStop]
  by_cases later : b.rest.length < a.rest.length
  · rw [if_pos later, if_pos (places.mpr later)]
  · rw [if_neg later, if_neg (mt places.mp later)]

/-- Behind a name, the furthest failure of a field with a scope and of a plain one is kept. -/
theorem otherShape_named {word : String} {e : Mismatch} (inside : cs <:+ line)
    (read : Grammar.name cs = .ok (word, rest)) (front : e.position = offset line cs) :
    Follows line cs (fun _ => []) id
      (match Scope.ofText? word with
        | none => Comment.namedField limit none word rest
        | some scope =>
          match Comment.fieldWithScope limit scope rest,
            Comment.namedField limit none word rest with
          | .ok field, _ => .ok field
          | .error _, .ok field => .ok field
          | .error a, .error b => .error (laterStop a b))
      (otherShape (offset line cs) e [scopedField line limit, namedField line limit none]) := by
  have named := name_follows cs inside
  have left : rest <:+ cs := named.left_suffix _ read
  have behind := left.trans inside
  have name := named.same
  rw [read, atOffsets] at name
  have tail := fieldTail_follows limit none word behind
  have plain : namedField line limit none (offset line cs) =
      atOffsets line id (Comment.namedField limit none word rest) := by
    rw [namedField, name, pure_bind, ← tail.same]
  have past {s : Stop} (stays : s.rest <:+ rest) : e.position < (s.inText line).position := by
    rw [front]
    exact Nat.lt_of_lt_of_le (offset_lt_of_name read inside) (offset_le stays behind)
  cases isScope : Scope.ofText? word with
  | none =>
    have withScope : scopedField line limit (offset line cs) =
        throw (Stop.inText line ⟨.aName, cs⟩) := by
      rw [scopedField, name, pure_bind]
      dsimp only
      rw [isScope]
      exact failAt_offset inside _
    have here : ¬ e.position < (Stop.inText line ⟨.aName, cs⟩).position :=
      Nat.not_lt.mpr (Nat.le_of_eq front.symm)
    rw [otherShape_throw withScope, if_neg here]
    cases read' : Comment.namedField limit none word rest with
    | ok f =>
      rw [read'] at plain
      rw [otherShape_pure plain]
      exact .ok List.nil_suffix
    | error s =>
      have stays := tail.stop_suffix s read'
      rw [read'] at plain
      rw [otherShape_throw plain, if_pos (past stays)]
      exact .error (stays.trans left)
  | some scope =>
    dsimp only
    have second := fieldWithScope_follows limit scope behind
    have withScope : scopedField line limit (offset line cs) =
        atOffsets line id (Comment.fieldWithScope limit scope rest) := by
      rw [scopedField, name, pure_bind]
      dsimp only
      rw [isScope]
      exact second.same
    cases read' : Comment.fieldWithScope limit scope rest with
    | ok f =>
      rw [read'] at withScope
      rw [otherShape_pure withScope]
      exact .ok List.nil_suffix
    | error a =>
      have stays := second.stop_suffix a read'
      rw [read'] at withScope
      rw [otherShape_throw withScope, if_pos (past stays)]
      cases read'' : Comment.namedField limit none word rest with
      | ok f =>
        rw [read''] at plain
        rw [otherShape_pure plain]
        exact .ok List.nil_suffix
      | error b =>
        have stays' := tail.stop_suffix b read''
        rw [read''] at plain
        rw [otherShape_throw plain, ← inText_laterStop (stays.trans behind) (stays'.trans behind)]
        apply Follows.error
        rw [laterStop]
        split
        · exact stays'.trans left
        · exact stays.trans left

theorem field_follows (inside : cs <:+ line) : Follows line cs (fun _ => []) id
    (Comment.field limit cs) (field line limit (offset line cs)) := by
  rw [field, skipBlanks_offset inside, pure_bind, Comment.field]
  have inside := (dropBlanks_suffix cs).trans inside
  apply Follows.mono _ (dropBlanks_suffix cs)
  split
  · next rest eq =>
    rw [eq] at inside ⊢
    have keyed := keyedField_follows limit inside
    have left : rest <:+ '[' :: rest := List.suffix_cons _ _
    rw [keyed.same]
    cases read : Comment.keyedField limit rest with
    | ok f => exact .ok List.nil_suffix
    | error s =>
      have stays := keyed.stop_suffix s read
      have result : otherShape (offset line ('[' :: rest)) (s.inText line)
          [scopedField line limit, namedField line limit none] = throw (s.inText line) :=
        otherShape_unnamed limit rfl inside (Nat.le_of_lt (offset_lt stays inside))
      change Follows _ _ _ _ _ (otherShape _ _ _)
      rw [result]
      exact .error (stays.trans left)
  · next noBracket =>
    have noKeys : keyedField line limit (offset line (dropBlanks cs)) =
        throw (Stop.inText line ⟨.token '[', dropBlanks cs⟩) := by
      have absent : Grammar.literal? "[" (dropBlanks cs) = none := literal?_eq_none noBracket
      rw [keyedField, literal?_offset _ inside, absent, pure_bind]
      exact failAt_offset inside _
    rw [noKeys]
    change Follows _ _ _ _ _ (otherShape _ _ _)
    split
    · next s read =>
      rw [otherShape_unnamed limit read inside (Nat.le_refl _)]
      exact .error List.suffix_rfl
    · next word rest read => exact otherShape_named limit inside read rfl

end AtOffset
end Annodoc
