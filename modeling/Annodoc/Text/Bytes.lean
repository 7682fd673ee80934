/-!
# Byte offsets

The bytes that a text takes in UTF-8, as a measure of places in it.
-/

namespace Annodoc.Text

/-- The number of bytes that a text takes in UTF-8. -/
def byteLength : List Char → Nat
  | [] => 0
  | c :: cs => c.utf8Size + byteLength cs

@[simp] theorem byteLength_append (xs ys : List Char) :
    byteLength (xs ++ ys) = byteLength xs + byteLength ys := by
  induction xs with
  | nil => simp [byteLength]
  | cons x xs ih => simp [byteLength, ih, Nat.add_assoc]

/-- What is left of a text after its first `n` bytes; nothing when that is past the end or
inside a character. -/
def afterBytes? : Nat → List Char → Option (List Char)
  | 0, cs => some cs
  | _ + 1, [] => none
  | n + 1, c :: cs => if c.utf8Size ≤ n + 1 then afterBytes? (n + 1 - c.utf8Size) cs else none

theorem afterBytes?_byteLength (xs ys : List Char) :
    afterBytes? (byteLength xs) (xs ++ ys) = some ys := by
  induction xs with
  | nil => simp [byteLength, afterBytes?]
  | cons x xs ih =>
    have pos : 0 < x.utf8Size := x.utf8Size_pos
    obtain ⟨n, hn⟩ : ∃ n, x.utf8Size + byteLength xs = n + 1 :=
      ⟨x.utf8Size + byteLength xs - 1, by omega⟩
    rw [byteLength, hn, List.cons_append, afterBytes?, if_pos (by omega), ← hn,
      Nat.add_sub_cancel_left, ih]

end Annodoc.Text
