import Annodoc.Text.Bytes

/-!
# Places by byte offsets

A byte offset names a place of a text exactly when it lies between two characters, and a text
cannot have two different ends of the same length.
-/

namespace Annodoc.Text

variable {cs rest : List Char} {n : Nat}

theorem exists_of_afterBytes? (h : afterBytes? n cs = some rest) :
    ∃ before, cs = before ++ rest ∧ byteLength before = n := by
  fun_induction afterBytes? n cs with
  | case1 cs =>
    obtain rfl := Option.some.inj h
    exact ⟨[], rfl, rfl⟩
  | case2 n => simp at h
  | case3 n c cs hc ih =>
    obtain ⟨before, rfl, hb⟩ := ih h
    exact ⟨c :: before, rfl, by rw [byteLength, hb]; omega⟩
  | case4 n c cs hc => simp at h

theorem afterBytes?_eq_some_iff :
    afterBytes? n cs = some rest ↔ ∃ before, cs = before ++ rest ∧ byteLength before = n := by
  constructor
  · exact exists_of_afterBytes?
  · intro h
    obtain ⟨before, rfl, rfl⟩ := h
    exact afterBytes?_byteLength before rest

theorem eq_of_byteLength_eq {xs ys a b : List Char} (h : xs ++ a = ys ++ b)
    (hl : byteLength a = byteLength b) : a = b := by
  have hx : byteLength xs = byteLength ys := by
    have total := congrArg byteLength h
    rw [byteLength_append, byteLength_append] at total
    omega
  have ha := afterBytes?_byteLength xs a
  rw [h, hx, afterBytes?_byteLength] at ha
  exact (Option.some.inj ha).symm

end Annodoc.Text
