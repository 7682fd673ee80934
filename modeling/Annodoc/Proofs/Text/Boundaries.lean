import Annodoc.Proofs.Text.Bytes
import Annodoc.Text.Blank
import Mathlib.Data.List.Basic
import Mathlib.Data.List.TakeWhile

/-!
# Boundaries between characters

The byte offsets of a text that lie between two characters, the cuts at them, and the counting of
bytes. Counting bytes of ASCII leads from such an offset to such an offset, since no byte of a longer
character is one of them.
-/

namespace Annodoc.Text

variable {text part rest : List Char} {n : Nat}

/-- The offset lies between two characters of the text, or at one of its ends. -/
def IsBoundary (text : List Char) (n : Nat) : Prop :=
  ∃ before after, text = before ++ after ∧ byteLength before = n

theorem isBoundary_iff : IsBoundary text n ↔ ∃ after, afterBytes? n text = some after := by
  constructor
  · rintro ⟨before, after, h⟩
    exact ⟨after, afterBytes?_eq_some_iff.mpr ⟨before, h⟩⟩
  · rintro ⟨after, h⟩
    obtain ⟨before, h⟩ := afterBytes?_eq_some_iff.mp h
    exact ⟨before, after, h⟩

theorem isBoundary_zero (text : List Char) : IsBoundary text 0 := ⟨[], text, rfl, rfl⟩

theorem IsBoundary.le_byteLength (h : IsBoundary text n) : n ≤ byteLength text := by
  obtain ⟨before, after, rfl, rfl⟩ := h
  rw [byteLength_append]
  omega

theorem byteLength_pos (h : text ≠ []) : 0 < byteLength text := by
  cases text with
  | nil => exact absurd rfl h
  | cons c cs => exact Nat.add_pos_left c.utf8Size_pos _

/-! ## Ends of a text -/

/-- The offset at which an end of a text begins. -/
def offset (text rest : List Char) : Nat := byteLength text - byteLength rest

theorem offset_self (text : List Char) : offset text text = 0 := Nat.sub_self _

theorem exists_offset (h : IsBoundary text n) : ∃ rest, rest <:+ text ∧ offset text rest = n := by
  obtain ⟨before, after, rfl, rfl⟩ := h
  exact ⟨after, List.suffix_append _ _, by simp [offset]⟩

theorem afterBytes?_offset (h : rest <:+ text) :
    afterBytes? (offset text rest) text = some rest := by
  obtain ⟨before, rfl⟩ := h
  exact afterBytes?_eq_some_iff.mpr ⟨before, rfl, by simp [offset]⟩

theorem isBoundary_offset (h : rest <:+ text) : IsBoundary text (offset text rest) :=
  isBoundary_iff.mpr ⟨rest, afterBytes?_offset h⟩

theorem offset_append (h : part ++ rest <:+ text) :
    offset text rest = offset text (part ++ rest) + byteLength part := by
  obtain ⟨before, rfl⟩ := h
  simp only [offset, byteLength_append]
  omega

theorem offset_le (h : rest <:+ part) (inside : part <:+ text) :
    offset text part ≤ offset text rest := by
  obtain ⟨before, rfl⟩ := h
  rw [offset_append inside]
  omega

theorem offset_lt {c : Char} (h : rest <:+ part) (inside : c :: part <:+ text) :
    offset text (c :: part) < offset text rest := by
  have le := offset_le h ((List.suffix_cons c part).trans inside)
  have next : offset text part = offset text (c :: part) + (c.utf8Size + 0) :=
    @offset_append text [c] part inside
  have size := c.utf8Size_pos
  omega

/-- Of two ends of a text the shorter one begins behind the other. -/
theorem offset_lt_iff (hp : part <:+ text) (hr : rest <:+ text) :
    offset text part < offset text rest ↔ rest.length < part.length := by
  constructor
  · intro lt
    by_contra le
    have := offset_le (List.suffix_of_suffix_length_le hp hr (Nat.le_of_not_lt le)) hr
    omega
  · intro lt
    obtain ⟨before, rfl⟩ := List.suffix_of_suffix_length_le hr hp (Nat.le_of_lt lt)
    cases before with
    | nil => exact absurd lt (Nat.lt_irrefl _)
    | cons c before => exact offset_lt (List.suffix_append _ _) hp

/-! ## Cuts -/

/-- The first `n` bytes of a text, if a character ends there. -/
def beforeBytes? (n : Nat) (text : List Char) : Option (List Char) :=
  (afterBytes? n text).map fun rest => text.take (text.length - rest.length)

/-- The part of a text from one byte offset to another one, if both lie between characters and they
are in order. -/
def between? (text : List Char) (start stop : Nat) : Option (List Char) :=
  if start ≤ stop then (afterBytes? start text).bind (beforeBytes? (stop - start)) else none

theorem beforeBytes?_append (part rest : List Char) :
    beforeBytes? (byteLength part) (part ++ rest) = some part := by
  simp [beforeBytes?, afterBytes?_byteLength]

theorem between?_offset (h : part ++ rest <:+ text) :
    between? text (offset text (part ++ rest)) (offset text rest) = some part := by
  have stop := offset_append h
  rw [between?, if_pos (by omega), afterBytes?_offset h, Option.bind_some, stop,
    Nat.add_sub_cancel_left, beforeBytes?_append]

/-- The offset of the first character with a property. -/
def findOffset? (p : Char → Bool) (text : List Char) : Option Nat :=
  if text.any p then some (byteLength (text.takeWhile fun c => !p c)) else none

theorem findOffset?_append {p : Char → Bool} {c : Char} (none : ∀ d ∈ part, p d = false)
    (first : p c = true) : findOffset? p (part ++ c :: rest) = some (byteLength part) := by
  have all : ∀ d ∈ part, (!p d) = true := by simpa using none
  rw [findOffset?, if_pos (by simp [first]), List.takeWhile_append_of_pos all]
  simp [first]

theorem findOffset?_eq_none {p : Char → Bool} (none : ∀ d ∈ text, p d = false) :
    findOffset? p text = .none :=
  if_neg (by simpa using none)

/-- The offset behind the characters in front of the first one with a property. -/
theorem findOffset?_getD (p : Char → Bool) (text : List Char) :
    (findOffset? p text).getD (byteLength text) = byteLength (text.takeWhile fun c => !p c) := by
  rw [findOffset?]
  split
  · rfl
  · next none =>
    have all : ∀ c ∈ text, (!p c) = true := by simpa using none
    rw [List.takeWhile_eq_self_iff.mpr all]
    rfl

/-! ## Bytes -/

/-- The bytes of a text in UTF-8. -/
def utf8 (text : List Char) : List UInt8 := text.flatMap String.utf8EncodeChar

theorem utf8_append (xs ys : List Char) : utf8 (xs ++ ys) = utf8 xs ++ utf8 ys :=
  List.flatMap_append

theorem utf8_cons (c : Char) (cs : List Char) :
    utf8 (c :: cs) = String.utf8EncodeChar c ++ utf8 cs := List.flatMap_cons

theorem length_utf8 (text : List Char) : (utf8 text).length = byteLength text := by
  induction text with
  | nil => rfl
  | cons c cs ih =>
    rw [utf8_cons, List.length_append, String.length_utf8EncodeChar, ih, byteLength]

/-- A character of ASCII is its only byte, and no byte of any other is one of ASCII. -/
theorem utf8EncodeChar_cases (c : Char) :
    c.toNat < 128 ∧ String.utf8EncodeChar c = [UInt8.ofNat c.toNat] ∨
      128 ≤ c.toNat ∧ ∃ b bs, String.utf8EncodeChar c = b :: bs ∧
        ∀ b' ∈ b :: bs, 128 ≤ b'.toNat := by
  have same : c.val.toNat = c.toNat := rfl
  simp only [String.utf8EncodeChar, same]
  split
  · exact .inl ⟨by omega, rfl⟩
  · refine .inr ⟨by omega, ?_⟩
    split
    · refine ⟨_, _, rfl, ?_⟩
      simp only [List.forall_mem_cons, UInt8.toNat_ofNat']
      exact ⟨by omega, by omega, nofun⟩
    · split
      · refine ⟨_, _, rfl, ?_⟩
        simp only [List.forall_mem_cons, UInt8.toNat_ofNat']
        exact ⟨by omega, by omega, by omega, nofun⟩
      · refine ⟨_, _, rfl, ?_⟩
        simp only [List.forall_mem_cons, UInt8.toNat_ofNat']
        exact ⟨by omega, by omega, by omega, by omega, nofun⟩

/-- The character of ASCII that a byte is. -/
def asciiOf (b : UInt8) : Char := Char.ofNat b.toNat

theorem toNat_asciiOf (b : UInt8) : (asciiOf b).toNat = b.toNat := by
  have all : ∀ n < 256, (Char.ofNat n).toNat = n := by decide +kernel
  exact all b.toNat b.toNat_lt

theorem asciiOf_toNat {c : Char} (small : c.toNat < 128) : asciiOf (UInt8.ofNat c.toNat) = c := by
  rw [asciiOf, UInt8.toNat_ofNat', Nat.mod_eq_of_lt (by omega), Char.ofNat_toNat]

/-- A property that holds of characters of ASCII only, so that single bytes settle it. -/
def OnAscii (q : Char → Bool) : Prop := ∀ c, q c = true → c.toNat < 128

namespace OnAscii
variable {q : Char → Bool}

theorem eq_false_of_le (h : OnAscii q) {c : Char} (large : 128 ≤ c.toNat) : q c = false := by
  cases found : q c with
  | false => rfl
  | true => exact absurd (h c found) (by omega)

theorem asciiOf_eq_false (h : OnAscii q) {b : UInt8} (large : 128 ≤ b.toNat) :
    q (asciiOf b) = false :=
  h.eq_false_of_le (by rwa [toNat_asciiOf])

/-- The first byte of a text has the property of its first character. -/
theorem head?_utf8 (h : OnAscii q) (text : List Char) :
    ((utf8 text).head?.any fun b => q (asciiOf b)) = text.head?.any q := by
  cases text with
  | nil => rfl
  | cons c cs =>
    rw [utf8_cons]
    rcases utf8EncodeChar_cases c with ⟨small, bytes⟩ | ⟨large, b, bs, bytes, high⟩
    · simp [bytes, asciiOf_toNat small]
    · simp [bytes, h.eq_false_of_le large, h.asciiOf_eq_false (high b List.mem_cons_self)]

/-- Bytes of ASCII characters are counted as these characters are. -/
theorem length_takeWhile_utf8 (h : OnAscii q) (text : List Char) :
    ((utf8 text).takeWhile fun b => q (asciiOf b)).length = byteLength (text.takeWhile q) := by
  induction text with
  | nil => rfl
  | cons c cs ih =>
    rw [utf8_cons]
    rcases utf8EncodeChar_cases c with ⟨small, bytes⟩ | ⟨large, b, bs, bytes, high⟩
    · have one : c.utf8Size = 1 := by rw [← String.length_utf8EncodeChar, bytes]; rfl
      rw [bytes, List.singleton_append, List.takeWhile_cons, List.takeWhile_cons,
        asciiOf_toNat small]
      cases q c with
      | false => rfl
      | true => simp [byteLength, one, ih, Nat.add_comm]
    · rw [bytes, List.cons_append, List.takeWhile_cons, List.takeWhile_cons,
        h.asciiOf_eq_false (high b List.mem_cons_self), h.eq_false_of_le large]
      rfl

end OnAscii

theorem onAscii_isBlank : OnAscii isBlank := by
  intro c h
  simp only [isBlank, Bool.or_eq_true, decide_eq_true_eq] at h
  rcases h with rfl | rfl <;> decide

/-- The offset behind the bytes with a property that stand at an offset. -/
def skipBytes (q : Char → Bool) (text : List Char) (n : Nat) : Nat :=
  n + (((utf8 text).drop n).takeWhile fun b => q (asciiOf b)).length

theorem drop_utf8_offset (h : rest <:+ text) : (utf8 text).drop (offset text rest) = utf8 rest := by
  obtain ⟨before, rfl⟩ := h
  have start : offset (before ++ rest) rest = (utf8 before).length := by
    simp [offset, length_utf8]
  rw [start, utf8_append, List.drop_left]

theorem skipBytes_offset {q : Char → Bool} (ascii : OnAscii q) (h : rest <:+ text) :
    skipBytes q text (offset text rest) = offset text (rest.dropWhile q) := by
  have split := List.takeWhile_append_dropWhile (p := q) (l := rest)
  have behind := offset_append (split.symm ▸ h)
  rw [split] at behind
  rw [behind, skipBytes, drop_utf8_offset h, ascii.length_takeWhile_utf8]

/-- The offset behind the blanks that stand at an offset. -/
def skipBlank (text : List Char) (n : Nat) : Nat := skipBytes isBlank text n

theorem skipBlank_offset (h : rest <:+ text) :
    skipBlank text (offset text rest) = offset text (dropBlanks rest) :=
  skipBytes_offset onAscii_isBlank h

/-- Inside a character there is no byte of ASCII. -/
theorem le_of_mem_drop_utf8 (h : ¬ IsBoundary text n) :
    ∀ b ∈ ((utf8 text).drop n).head?, 128 ≤ b.toNat := by
  induction text generalizing n with
  | nil => simp [utf8]
  | cons c cs ih =>
    have size := String.length_utf8EncodeChar c
    rw [utf8_cons]
    by_cases le : c.utf8Size ≤ n
    · have inside : ¬ IsBoundary cs (n - c.utf8Size) := by
        rintro ⟨before, after, rfl, length⟩
        exact h ⟨c :: before, after, rfl, by rw [byteLength]; omega⟩
      rw [List.drop_append, List.drop_eq_nil_of_le (by omega), List.nil_append, size]
      exact ih inside
    · have front : n ≠ 0 := by
        rintro rfl
        exact h (isBoundary_zero _)
      rcases utf8EncodeChar_cases c with ⟨-, bytes⟩ | ⟨-, b, bs, bytes, high⟩
      · rw [bytes, List.length_singleton] at size
        omega
      · intro b' found
        rw [List.drop_append_of_le_length (by omega), bytes] at found
        rw [bytes] at size
        have inside : b' ∈ (b :: bs).drop n := by
          rw [List.head?_append_of_ne_nil _ (mt List.drop_eq_nil_iff.mp (by omega))] at found
          exact List.mem_of_mem_head? found
        exact high b' (List.mem_of_mem_drop inside)

theorem skipBytes_of_not_isBoundary {q : Char → Bool} (ascii : OnAscii q)
    (h : ¬ IsBoundary text n) : skipBytes q text n = n := by
  have high := le_of_mem_drop_utf8 h
  rw [skipBytes]
  cases bytes : (utf8 text).drop n with
  | nil => rfl
  | cons b bs =>
    rw [bytes] at high
    rw [List.takeWhile_cons, ascii.asciiOf_eq_false (high b rfl)]
    rfl

end Annodoc.Text
