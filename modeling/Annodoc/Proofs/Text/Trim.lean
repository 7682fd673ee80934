import Annodoc.Text.Blank
import Annodoc.Text.Lines
import Mathlib.Data.List.Basic
import Mathlib.Data.List.TakeWhile

/-!
# Trimmed texts and rows

A trimmed text has no white space at its ends, so it comes back from what stands behind blanks. A
text is the rows between its line feeds, and it is trimmed if its outer rows hold text and are.
-/

namespace Annodoc.Text

variable {cs b : List Char} {c : Char}

/-- No white space at either end. -/
def IsTrimmed (cs : List Char) : Prop := trim cs = cs

instance (cs : List Char) : Decidable (IsTrimmed cs) := inferInstanceAs (Decidable (trim cs = cs))

theorem length_trimStart_le (cs : List Char) : (trimStart cs).length ≤ cs.length :=
  (List.dropWhile_suffix isSpace).length_le

theorem length_trimEnd_le (cs : List Char) : (trimEnd cs).length ≤ cs.length := by
  have h := length_trimStart_le cs.reverse
  rw [List.length_reverse] at h
  rwa [trimEnd, List.length_reverse]

theorem trimStart_eq_self_iff : trimStart cs = cs ↔ ∀ c ∈ cs.head?, isSpace c = false := by
  cases cs with
  | nil => simp [trimStart]
  | cons c cs =>
    by_cases hc : isSpace c = true
    · have shorter := length_trimStart_le cs
      rw [trimStart, List.dropWhile_cons_of_pos hc, ← trimStart]
      constructor
      · intro h
        rw [h, List.length_cons] at shorter
        omega
      · intro h
        exact absurd hc (by simp [h c (by simp)])
    · simp [trimStart, hc]

theorem trimEnd_eq_self_iff : trimEnd cs = cs ↔ ∀ c ∈ cs.getLast?, isSpace c = false := by
  rw [trimEnd, ← List.head?_reverse, ← trimStart_eq_self_iff, trimStart, List.reverse_eq_iff]

/-- What is cut off at the end is white space. -/
theorem exists_trimEnd (cs : List Char) :
    ∃ w, (∀ c ∈ w, isSpace c = true) ∧ cs = trimEnd cs ++ w := by
  refine ⟨(cs.reverse.takeWhile isSpace).reverse, ?_, ?_⟩
  · intro c hc
    exact List.mem_takeWhile_imp (List.mem_reverse.mp hc)
  · rw [trimEnd, ← List.reverse_append, List.takeWhile_append_dropWhile, List.reverse_reverse]

theorem isSpace_getLast_trimEnd (cs : List Char) :
    ∀ c ∈ (trimEnd cs).getLast?, isSpace c = false := by
  intro c hc
  rw [trimEnd, List.getLast?_reverse] at hc
  have first := List.head?_dropWhile_not isSpace cs.reverse
  rw [hc] at first
  exact first

/-- A text without white space at its end stays whole in front of what is cut. -/
theorem trimEnd_append (h : ∀ c ∈ b.getLast?, isSpace c = false) (cs : List Char) :
    trimEnd (b ++ cs) = b ++ trimEnd cs := by
  have whole : b.reverse.dropWhile isSpace = b.reverse :=
    trimStart_eq_self_iff.mpr (by rwa [List.head?_reverse])
  rw [trimEnd, trimEnd, List.reverse_append, List.dropWhile_append, whole]
  split
  · next empty => simp [List.isEmpty_iff.mp empty]
  · rw [List.reverse_append, List.reverse_reverse]

theorem isTrimmed_iff : IsTrimmed cs ↔
    (∀ c ∈ cs.head?, isSpace c = false) ∧ ∀ c ∈ cs.getLast?, isSpace c = false := by
  rw [← trimStart_eq_self_iff, ← trimEnd_eq_self_iff, IsTrimmed, trim]
  constructor
  · intro h
    -- Neither cut makes a text longer, so one that comes back whole was cut nowhere.
    have stop := length_trimEnd_le (trimStart cs)
    rw [h] at stop
    have same : trimStart cs = cs := (List.dropWhile_suffix isSpace).eq_of_length_le stop
    rw [same] at h
    exact ⟨same, h⟩
  · intro h
    rw [h.1, h.2]

theorem IsTrimmed.trimStart_eq (h : IsTrimmed cs) : trimStart cs = cs :=
  trimStart_eq_self_iff.mpr (isTrimmed_iff.mp h).1

theorem IsTrimmed.isEmptyText_eq_false (h : IsTrimmed cs) (ne : cs ≠ []) :
    isEmptyText cs = false := by
  obtain ⟨c, cs, rfl⟩ := List.exists_cons_of_ne_nil ne
  have hc : isSpace c = false := (isTrimmed_iff.mp h).1 c (by simp)
  simp [isEmptyText, hc]

theorem trimStart_append (hb : ∀ c ∈ b, isSpace c = true) (cs : List Char) :
    trimStart (b ++ cs) = trimStart cs := List.dropWhile_append_of_pos hb

theorem trim_append (hb : ∀ c ∈ b, isSpace c = true) (cs : List Char) :
    trim (b ++ cs) = trim cs := by rw [trim, trim, trimStart_append hb]

/-- Cutting the end off as well leaves the same character in front. -/
theorem head?_trim (cs : List Char) : (trim cs).head? = (trimStart cs).head? := by
  have front : trimEnd (trimStart cs) <+: trimStart cs := by
    rw [← List.reverse_suffix, trimEnd, List.reverse_reverse]
    exact List.dropWhile_suffix isSpace
  rw [trim]
  cases eq : trimEnd (trimStart cs) with
  | nil =>
    -- All of what begins without white space would have to be white space.
    have all : ∀ c ∈ trimStart cs, isSpace c = true := by
      simpa [trimEnd, List.dropWhile_eq_nil_iff] using eq
    have first := List.head?_dropWhile_not isSpace cs
    rw [← trimStart] at first
    cases eq' : trimStart cs with
    | nil => rfl
    | cons c rest => simp [eq', all c (by simp [eq'])] at first
  | cons c rest =>
    rw [eq] at front
    obtain ⟨more, h⟩ := front
    simp [← h]

theorem toList_intercalate_cons (sep text : String) (more : List String) :
    (sep.intercalate (text :: more)).toList =
      text.toList ++ more.flatMap fun t => sep.toList ++ t.toList := by
  induction more generalizing text with
  | nil => simp
  | cons t more ih => simp [String.intercalate_cons_cons, ih]

/-- The texts between the line feeds. -/
def rows (text : String) : List String := (text.toList.splitOn '\n').map String.ofList

theorem rows_ne_nil (text : String) : rows text ≠ [] := by simp [rows]

theorem unlines_rows (text : String) : unlines (rows text) = text := by
  rw [← String.toList_inj, unlines, String.toList_intercalate, rows, List.map_map]
  simp [Function.comp_def]

theorem isTrimmed_of_rows {text : String} (trimmed : ∀ row ∈ rows text, IsTrimmed row.toList)
    (first : ∀ row ∈ (rows text).head?, row ≠ "") (last : ∀ row ∈ (rows text).getLast?, row ≠ "") :
    IsTrimmed text.toList := by
  obtain ⟨row, more, split⟩ := List.exists_cons_of_ne_nil (rows_ne_nil text)
  have joined := toList_intercalate_cons "\n" row more
  rw [← split] at joined
  rw [← unlines_rows text, unlines, joined, isTrimmed_iff]
  rw [split] at trimmed first last
  have start : row.toList ≠ [] := by simpa using first row rfl
  refine ⟨?_, ?_⟩
  · rw [List.head?_append_of_ne_nil _ start]
    exact (isTrimmed_iff.mp (trimmed row (by simp))).1
  · rcases List.eq_nil_or_concat' more with rfl | ⟨inner, stop, rfl⟩
    · rw [List.flatMap_nil, List.append_nil]
      exact (isTrimmed_iff.mp (trimmed row (by simp))).2
    · rw [← List.cons_append, List.getLast?_concat] at last
      have some : stop.toList ≠ [] := by simpa using last stop rfl
      rw [List.flatMap_append, List.flatMap_singleton, ← List.append_assoc, ← List.append_assoc,
        List.getLast?_append_of_ne_nil _ some]
      exact (isTrimmed_iff.mp (trimmed stop (by simp))).2

end Annodoc.Text
