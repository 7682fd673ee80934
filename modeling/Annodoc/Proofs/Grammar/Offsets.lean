import Annodoc.Proofs.Grammar.Token
import Annodoc.Proofs.Text.Boundaries

/-!
# Reading at byte offsets

The readers of tokens once more, on one text and the byte offsets into it, with a check wherever the
text is cut or a byte of it is taken. Such a reader follows the one that takes a value from the
front of a text: it finds the same, at the offset where that one goes on, and no check fails.
-/

namespace Annodoc
open Text Grammar

/-- A reading in which a check may fail: a text is cut inside a character or past its end, a line is
asked for that a block does not have, or a loop does not get on. Then there is no result. -/
abbrev Cutting (ε α : Type) := ExceptT ε Option α

/-- A check fails. -/
def broken {ε α : Type} : Cutting ε α := ExceptT.mk none

@[simp] theorem lift_some {ε α : Type} (a : α) : (liftM (some a) : Cutting ε α) = pure a := rfl

/-! ## Agreement -/

/-- Where a reading goes on, and where it stops, is an end of `place`. -/
structure Stays {α : Type} (left : α → List Char) (place : List Char) (reading : Except Stop α) :
    Prop where
  left_suffix : ∀ a, reading = .ok a → left a <:+ place
  stop_suffix : ∀ s, reading = .error s → s.rest <:+ place

/-- What a reading finds, with the offset `at_` of the text that it leaves in place of that text. -/
def atOffsets {α β : Type} (text : List Char) (at_ : α → β) : Except Stop α → Cutting Mismatch β
  | .ok a => pure (at_ a)
  | .error s => throw (s.inText text)

/-- A reading at offsets of `text` that agrees with the reading of `place`, an end of it. -/
structure Follows {α β : Type} (text place : List Char) (left : α → List Char) (at_ : α → β)
    (reading : Except Stop α) (cutting : Cutting Mismatch β) : Prop
    extends Stays left place reading where
  same : cutting = atOffsets text at_ reading

namespace Follows
variable {α β γ δ : Type} {text place larger : List Char} {left : α → List Char} {at_ : α → β}
  {left' : γ → List Char} {at_' : γ → δ} {x : Except Stop α} {y : Cutting Mismatch β}

theorem ok {a : α} (h : left a <:+ place) : Follows text place left at_ (.ok a) (pure (at_ a)) where
  left_suffix := by
    rintro _ ⟨⟩
    exact h
  stop_suffix := nofun
  same := rfl

theorem error {s : Stop} (h : s.rest <:+ place) :
    Follows text place left at_ (.error s) (throw (s.inText text)) where
  left_suffix := nofun
  stop_suffix := by
    rintro _ ⟨⟩
    exact h
  same := rfl

theorem mono (h : Follows text place left at_ x y) (le : place <:+ larger) :
    Follows text larger left at_ x y :=
  ⟨⟨fun a eq => (h.left_suffix a eq).trans le, fun s eq => (h.stop_suffix s eq).trans le⟩, h.same⟩

/-- What follows a reading stays in what that one left. -/
theorem bind {f : α → Except Stop γ} {g : β → Cutting Mismatch δ}
    (h : Follows text place left at_ x y) (inside : place <:+ text)
    (next : ∀ a, left a <:+ place → left a <:+ text →
      Follows text (left a) left' at_' (f a) (g (at_ a))) :
    Follows text place left' at_' (x >>= f) (y >>= g) := by
  cases x with
  | error s =>
    rw [h.same]
    exact error (h.stop_suffix s rfl)
  | ok a =>
    have stays := h.left_suffix a rfl
    rw [h.same, atOffsets]
    simp only [pure_bind]
    exact (next a stays (stays.trans inside)).mono stays

end Follows

/-- A value, and the offset of what is left behind it. -/
abbrev leavingAt {α : Type} (text : List Char) (found : α × List Char) : α × Nat :=
  (found.1, offset text found.2)

/-- A reader at offsets that follows `reader` at every end of the text. -/
def FollowsReader {α : Type} (text : List Char) (reader : Reader α)
    (readerAt : Nat → Cutting Mismatch (α × Nat)) : Prop :=
  ∀ cs, cs <:+ text →
    Follows text cs Prod.snd (leavingAt text) (reader cs) (readerAt (offset text cs))

/-! ## Tokens -/

namespace AtOffset

/-- The bytes of a text from an offset on. -/
def bytesFrom? (text : List Char) (n : Nat) : Option (List UInt8) :=
  if n ≤ byteLength text then some ((utf8 text).drop n) else none

variable (text : List Char)

/-- A failure at an offset, with the text that was found there. -/
def failAt {α : Type} (n : Nat) (expected : Expectation) : Cutting Mismatch α := do
  let rest ← afterBytes? (min n (byteLength text)) text
  throw ⟨n, expected, .ofRest rest⟩

/-- The offset behind the bytes with a property. -/
def skip (q : Char → Bool) (n : Nat) : Cutting Mismatch Nat := do
  let bytes ← bytesFrom? text n
  return n + (bytes.takeWhile fun b => q (asciiOf b)).length

def skipBlanks (n : Nat) : Cutting Mismatch Nat := skip text isBlank n

/-- The offset behind letters, digits and underscores. -/
def identEnd (n : Nat) : Cutting Mismatch Nat := skip text isIdent n

/-- Whether there is a byte at an offset, and it has a property. -/
def byteIs (q : Char → Bool) (n : Nat) : Bool := ((utf8 text)[n]?).any fun b => q (asciiOf b)

/-- The offset behind a text that stands at an offset. -/
def literal? (lit : String) (n : Nat) : Cutting Mismatch (Option Nat) := do
  let rest ← afterBytes? n text
  return (Grammar.literal? lit rest).map fun _ => n + byteLength lit.toList

/-- The offset behind a word that stands at an offset and ends there. -/
def keyword? (word : String) (n : Nat) : Cutting Mismatch (Option Nat) := do
  let found ← literal? text word n
  return found.filter fun stop => !byteIs text isIdent stop

/-- The offset behind blanks and the mark `c`. -/
def mark? (c : Char) (n : Nat) : Cutting Mismatch (Option Nat) := do
  let n ← skipBlanks text n
  literal? text (String.singleton c) n

def mark (c : Char) (n : Nat) : Cutting Mismatch Nat := do
  let n ← skipBlanks text n
  match ← literal? text (String.singleton c) n with
  | some stop => return stop
  | none => failAt text n (.token c)

def name (n : Nat) : Cutting Mismatch (String × Nat) := do
  if byteIs text (fun c => isIdent c && !c.isDigit) n then
    let stop ← identEnd text n
    let name ← between? text n stop
    return (String.ofList name, stop)
  else failAt text n .aName

def questionMark (n : Nat) : Cutting Mismatch (Bool × Nat) := do
  match ← mark? text '?' n with
  | some stop => return (true, stop)
  | none => return (false, n)

/-- Further items, each after the mark `sep`, as long as there are any. -/
def moreItems {α : Type} (sep : Char) (item : Nat → Cutting Mismatch (α × Nat)) (n : Nat) :
    Cutting Mismatch (List α × Nat) := do
  match ← mark? text sep n with
  | none => return ([], n)
  | some stop => do
    let (x, next) ← item stop
    if n < next ∧ next ≤ byteLength text then do
      let (xs, last) ← moreItems sep item next
      return (x :: xs, last)
    else broken
termination_by byteLength text - n
decreasing_by omega

def items {α : Type} (sep : Char) (item : Nat → Cutting Mismatch (α × Nat)) (n : Nat) :
    Cutting Mismatch (List α × Nat) := do
  let (x, n) ← item n
  let (xs, n) ← moreItems text sep item n
  return (x :: xs, n)

/-- Nothing but white space may stand at an offset. -/
def nothingMore (n : Nat) : Cutting Mismatch Unit := do
  let rest ← afterBytes? n text
  if isEmptyText rest then return ()
  let n ← skipBlanks text n
  failAt text n .endOfLine

end AtOffset

/-! ## Tokens at the offset of an end -/

theorem Text.dropBlanks_suffix (cs : List Char) : dropBlanks cs <:+ cs := List.dropWhile_suffix _

theorem Grammar.afterIdent_suffix (cs : List Char) : afterIdent cs <:+ cs := List.dropWhile_suffix _

theorem Grammar.mark?_suffix {c : Char} {cs rest : List Char} (h : Grammar.mark? c cs = some rest) :
    rest <:+ dropBlanks cs := by
  rw [Grammar.mark?] at h
  split at h
  · next d after found =>
    split at h
    · obtain rfl := Option.some.inj h
      rw [found]
      exact List.suffix_cons _ _
    · cases h
  · cases h

namespace AtOffset
variable {text cs rest : List Char} {α : Type}

theorem failAt_offset (h : rest <:+ text) (expected : Expectation) :
    failAt (α := α) text (offset text rest) expected =
      throw (Stop.inText text ⟨expected, rest⟩) := by
  have inside : min (offset text rest) (byteLength text) = offset text rest :=
    Nat.min_eq_left (isBoundary_offset h).le_byteLength
  simp only [failAt, inside, afterBytes?_offset h]
  rfl

theorem skip_offset {q : Char → Bool} (ascii : OnAscii q) (h : cs <:+ text) :
    skip text q (offset text cs) = pure (offset text (cs.dropWhile q)) := by
  have found : bytesFrom? text (offset text cs) = some ((utf8 text).drop (offset text cs)) :=
    if_pos (isBoundary_offset h).le_byteLength
  rw [skip, found, ← skipBytes_offset ascii h, skipBytes]
  rfl

theorem skipBlanks_offset (h : cs <:+ text) :
    skipBlanks text (offset text cs) = pure (offset text (dropBlanks cs)) :=
  skip_offset onAscii_isBlank h

theorem onAscii_isIdent : OnAscii isIdent := by
  intro c h
  have below (last : Char) (ascii : last.toNat < 128) (le : c.val ≤ last.val) : c.toNat < 128 :=
    Nat.lt_of_le_of_lt (UInt32.le_iff_toNat_le.mp le) ascii
  rcases (Bool.or_eq_true _ _).mp h with alphanumeric | underscore
  · rcases (Bool.or_eq_true _ _).mp alphanumeric with letter | digit
    · rcases (Bool.or_eq_true _ _).mp letter with upper | lower
      · exact below 'Z' (by decide) (of_decide_eq_true upper).2
      · exact below 'z' (by decide) (of_decide_eq_true ((Bool.and_eq_true _ _).mp lower).2)
    · exact below '9' (by decide) (of_decide_eq_true ((Bool.and_eq_true _ _).mp digit).2)
  · rw [of_decide_eq_true underscore]
    decide

theorem identEnd_offset (h : cs <:+ text) :
    identEnd text (offset text cs) = pure (offset text (afterIdent cs)) :=
  skip_offset onAscii_isIdent h

/-- The word at an offset can be cut out. -/
theorem between?_identPart (h : cs <:+ text) :
    between? text (offset text cs) (offset text (afterIdent cs)) = some (identPart cs) := by
  have split := identPart_append_afterIdent cs
  have cut := between?_offset (split.symm ▸ h)
  rwa [split] at cut

theorem byteIs_offset {q : Char → Bool} (ascii : OnAscii q) (h : cs <:+ text) :
    byteIs text q (offset text cs) = cs.head?.any q := by
  rw [byteIs, ← List.head?_drop, drop_utf8_offset h, ascii.head?_utf8]

theorem literal?_eq_some_iff {lit : String} :
    Grammar.literal? lit cs = some rest ↔ cs = lit.toList ++ rest := by
  rw [Grammar.literal?, List.isPrefixOf?_eq_some_iff_append_eq, eq_comm]

theorem literal?_eq_none {lit : String} (h : ∀ rest, cs ≠ lit.toList ++ rest) :
    Grammar.literal? lit cs = none := by
  cases found : Grammar.literal? lit cs with
  | none => rfl
  | some rest => exact absurd (literal?_eq_some_iff.mp found) (h rest)

theorem literal?_offset (lit : String) (h : cs <:+ text) :
    literal? text lit (offset text cs) = pure ((Grammar.literal? lit cs).map (offset text)) := by
  simp only [literal?, afterBytes?_offset h, lift_some, pure_bind]
  cases found : Grammar.literal? lit cs with
  | none => rfl
  | some rest =>
    obtain rfl := literal?_eq_some_iff.mp found
    rw [Option.map_some, Option.map_some, offset_append h]

theorem identEnds_iff : IdentEnds rest ↔ rest.head?.any isIdent = false := by
  cases rest <;> simp [IdentEnds]

/-- A word stands at an offset and ends there, if it is all that the word there can be. -/
theorem keyword?_offset {word : String} (ident : ∀ c ∈ word.toList, isIdent c = true)
    (h : cs <:+ text) : keyword? text word (offset text cs) =
      pure (if identPart cs = word.toList then some (offset text (afterIdent cs)) else none) := by
  rw [keyword?, literal?_offset word h, pure_bind]
  cases found : Grammar.literal? word cs with
  | none =>
    have other : identPart cs ≠ word.toList := by
      intro same
      have stands := (identPart_append_afterIdent cs).symm
      rw [same, ← literal?_eq_some_iff, found] at stands
      cases stands
    rw [if_neg other]
    rfl
  | some rest =>
    obtain rfl := literal?_eq_some_iff.mp found
    rw [Option.map_some, Option.filter_some,
      byteIs_offset onAscii_isIdent ((List.suffix_append _ _).trans h)]
    by_cases ends : IdentEnds rest
    · rw [identPart_append ident ends, afterIdent_append ident ends, identEnds_iff.mp ends,
        if_pos rfl]
      rfl
    · have longer : identPart (word.toList ++ rest) ≠ word.toList := by
        rw [identPart, List.takeWhile_append_of_pos ident]
        exact fun same => ends (identPart_eq_nil_iff.mp (List.append_right_eq_self.mp same))
      have goesOn : rest.head?.any isIdent = true := by
        simpa using mt identEnds_iff.mpr ends
      rw [if_neg longer, goesOn]
      rfl

theorem mark?_eq (c : Char) (cs : List Char) :
    Grammar.mark? c cs = Grammar.literal? (String.singleton c) (dropBlanks cs) := by
  rw [Grammar.mark?, Grammar.literal?, String.toList_singleton]
  cases dropBlanks cs with
  | nil => rfl
  | cons d ds =>
    by_cases h : d = c
    · simp [h, List.isPrefixOf?]
    · simp [h, Ne.symm h, List.isPrefixOf?]

theorem mark?_offset (c : Char) (h : cs <:+ text) :
    mark? text c (offset text cs) = pure ((Grammar.mark? c cs).map (offset text)) := by
  have inside : dropBlanks cs <:+ text := (dropBlanks_suffix cs).trans h
  rw [mark?, skipBlanks_offset h, pure_bind, literal?_offset _ inside, mark?_eq]

/-! ## What the readers of tokens follow -/

theorem mark_follows (c : Char) (h : cs <:+ text) : Follows text cs id (offset text)
    (Grammar.mark c cs) (mark text c (offset text cs)) := by
  have inside : dropBlanks cs <:+ text := (dropBlanks_suffix cs).trans h
  rw [mark, skipBlanks_offset h, pure_bind, literal?_offset _ inside, pure_bind, ← mark?_eq,
    Grammar.mark]
  cases found : Grammar.mark? c cs with
  | none =>
    rw [Option.map_none, failAt_offset inside]
    exact .error (dropBlanks_suffix cs)
  | some rest => exact .ok ((mark?_suffix found).trans (dropBlanks_suffix cs))

theorem name_follows : FollowsReader text Grammar.name (name text) := by
  intro cs h
  have ascii : OnAscii fun c => isIdent c && !c.isDigit := by
    intro c fits
    exact onAscii_isIdent c (Bool.and_eq_true_iff.mp fits).1
  rw [name, byteIs_offset ascii h, identEnd_offset h, Grammar.name.eq_def]
  cases cs with
  | nil =>
    rw [failAt_offset h]
    exact .error List.suffix_rfl
  | cons c cs =>
    simp only [List.head?_cons, Option.any_some, pure_bind]
    split
    · rw [between?_identPart h]
      exact .ok (afterIdent_suffix _)
    · rw [failAt_offset h]
      exact .error List.suffix_rfl

theorem questionMark_offset (h : cs <:+ text) : questionMark text (offset text cs) =
    pure ((Grammar.questionMark cs).1, offset text (Grammar.questionMark cs).2) := by
  rw [questionMark, mark?_offset _ h, pure_bind, Grammar.questionMark]
  cases Grammar.mark? '?' cs <;> rfl

theorem questionMark_suffix (cs : List Char) : (Grammar.questionMark cs).2 <:+ cs := by
  rw [Grammar.questionMark]
  split
  · next rest found => exact (mark?_suffix found).trans (dropBlanks_suffix cs)
  · exact List.suffix_rfl

theorem nothingMore_follows (h : cs <:+ text) : Follows text cs (fun _ => []) id
    (Grammar.nothingMore cs) (nothingMore text (offset text cs)) := by
  rw [nothingMore, afterBytes?_offset h, lift_some, pure_bind, Grammar.nothingMore]
  split
  · exact .ok List.nil_suffix
  · rw [skipBlanks_offset h, pure_bind, failAt_offset ((dropBlanks_suffix cs).trans h)]
    exact .error (dropBlanks_suffix cs)

variable {sep : Char} {item : Reader α} {itemAt : Nat → Cutting Mismatch (α × Nat)}

theorem moreItems_follows (follows : FollowsReader text item itemAt) {rounds : Nat}
    (enough : cs.length ≤ rounds) (h : cs <:+ text) :
    Follows text cs Prod.snd (leavingAt text) (Grammar.moreItems sep item rounds cs)
      (moreItems text sep itemAt (offset text cs)) := by
  induction rounds generalizing cs with
  | zero =>
    obtain rfl := List.length_eq_zero_iff.mp (Nat.le_zero.mp enough)
    rw [moreItems, mark?_offset _ h]
    exact .ok List.suffix_rfl
  | succ rounds ih =>
    rw [moreItems, mark?_offset _ h, pure_bind, Grammar.moreItems]
    cases found : Grammar.mark? sep cs with
    | none => exact .ok List.suffix_rfl
    | some rest =>
      have shorter := length_lt_of_mark? found
      have inside := (mark?_suffix found).trans (dropBlanks_suffix cs)
      apply Follows.mono _ inside
      apply (follows rest (inside.trans h)).bind (inside.trans h)
      rintro ⟨x, after⟩ stays behind
      have le := stays.length_le
      have further : offset text cs < offset text after :=
        (offset_lt_iff h behind).mpr (Nat.lt_of_le_of_lt le shorter)
      dsimp only
      rw [if_pos ⟨further, (isBoundary_offset behind).le_byteLength⟩]
      apply (ih (by omega) behind).bind behind
      rintro ⟨xs, rest⟩ - -
      exact .ok List.suffix_rfl

/-- Items stay where the first of them stays. -/
theorem items_follows {place : List Char} (inside : place <:+ text)
    (first : Follows text place Prod.snd (leavingAt text) (item cs) (itemAt (offset text cs)))
    (follows : FollowsReader text item itemAt) :
    Follows text place Prod.snd (leavingAt text) (Grammar.items sep item cs)
      (items text sep itemAt (offset text cs)) := by
  apply first.bind inside
  rintro ⟨x, rest⟩ - inside
  apply (moreItems_follows follows (Nat.le_refl _) inside).bind inside
  rintro ⟨xs, rest⟩ - -
  exact .ok List.suffix_rfl

end AtOffset
end Annodoc
