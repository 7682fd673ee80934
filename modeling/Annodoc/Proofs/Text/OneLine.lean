import Annodoc.Proofs.Text.Trim
import Annodoc.Text.Quoted
import Mathlib.Data.Nat.Digits.Defs

/-!
# Texts of one line

Texts without a line feed. Joining such texts makes another one, numbers and quoted texts are such
texts, and a text whose lines all end with a line feed falls apart into them again.
-/

namespace Annodoc.Text

/-- No line feed in the text. -/
def OneLine (s : String) : Prop := '\n' ∉ s.toList

instance (s : String) : Decidable (OneLine s) := inferInstanceAs (Decidable ('\n' ∉ s.toList))

variable {s t : String} {cs rest : List Char}

@[simp] theorem oneLine_append : OneLine (s ++ t) ↔ OneLine s ∧ OneLine t := by
  simp [OneLine]

@[simp] theorem oneLine_ofList : OneLine (String.ofList cs) ↔ '\n' ∉ cs := by
  simp [OneLine]

theorem oneLine_intercalate (hs : OneLine s) {ts : List String} (ht : ∀ t ∈ ts, OneLine t) :
    OneLine (s.intercalate ts) := by
  induction ts with
  | nil => simp [OneLine]
  | cons t ts ih =>
    obtain ⟨first, others⟩ := List.forall_mem_cons.mp ht
    cases ts with
    | nil => simpa using first
    | cons u ts =>
      rw [String.intercalate_cons_cons, oneLine_append, oneLine_append]
      exact ⟨⟨first, hs⟩, ih others⟩

/-! ## Parts -/

theorem not_mem_of_suffix (h : '\n' ∉ cs) (part : rest <:+ cs) : '\n' ∉ rest :=
  fun mem => h (part.subset mem)

theorem not_mem_takeWhile {p : Char → Bool} (h : p '\n' = false) : '\n' ∉ cs.takeWhile p := by
  intro mem
  exact absurd (List.mem_takeWhile_imp mem) (by simp [h])

theorem not_mem_trimEnd (h : '\n' ∉ cs) : '\n' ∉ trimEnd cs := by
  rw [trimEnd, List.mem_reverse]
  intro mem
  have inside := (List.dropWhile_suffix isSpace).subset mem
  exact h (List.mem_reverse.mp inside)

/-! ## Numbers and quoted texts -/

theorem not_mem_toDigits {base : Nat} (hb : 1 < base) (n : Nat) : '\n' ∉ base.toDigits n := by
  induction n using Nat.strongRecOn with
  | ind n ih =>
    have digit : ∀ d : Nat, '\n' ≠ d.digitChar := fun d => (Nat.digitChar_ne '\n' (by decide)).symm
    rw [Nat.toDigits_eq_if hb]
    split
    · exact fun mem => digit n (List.mem_singleton.mp mem)
    · have smaller : n / base < n := Nat.div_lt_self (by omega) hb
      rw [List.mem_append, List.mem_singleton]
      exact not_or_intro (ih _ smaller) (digit (n % base))

@[simp] theorem oneLine_repr (n : Nat) : OneLine n.repr := by
  have digits : n.repr.toList = Nat.toDigits 10 n := String.toList_ofList
  rw [OneLine, digits]
  exact not_mem_toDigits (by decide) n

theorem not_mem_escapeChar (c : Char) : '\n' ∉ escapeChar c := by
  by_cases feed : c = '\n'
  · subst feed
    decide
  · unfold escapeChar
    split
    case h_7 =>
      split
      · exact fun mem => feed (List.mem_singleton.mp mem).symm
      · simpa [hexDigits] using not_mem_toDigits (by decide) c.toNat
    all_goals decide

/-- Whatever a text holds, between quotes it is on one line. -/
theorem oneLine_quoted (cs : List Char) : OneLine (quoted cs) := by
  simp [quoted, not_mem_escapeChar, OneLine]

/-! ## Lines of a text -/

theorem not_mem_dropReturn (h : '\n' ∉ cs) : '\n' ∉ dropReturn cs := by
  rw [dropReturn]
  split
  · exact fun mem => h (List.dropLast_subset cs mem)
  · exact h

theorem not_mem_lines {text : List Char} : ∀ line ∈ lines text, '\n' ∉ line := by
  fun_induction lines text with
  | case1 => simp
  | case2 text some line rest last =>
    have inside : '\n' ∉ line := fun mem => by simpa using List.mem_takeWhile_imp mem
    simpa using inside
  | case3 text some line rest more ih =>
    have inside : '\n' ∉ line := fun mem => by simpa using List.mem_takeWhile_imp mem
    exact List.forall_mem_cons.mpr ⟨not_mem_dropReturn inside, ih⟩

theorem rows_unlines {ls : List String} (h : ∀ l ∈ ls, OneLine l) (ne : ls ≠ []) :
    rows (unlines ls) = ls := by
  have inside : ∀ l ∈ ls.map String.toList, '\n' ∉ l := List.forall_mem_map.mpr h
  have split := List.splitOn_intercalate '\n' inside (by simpa using ne)
  rw [rows, unlines, String.toList_intercalate]
  simp [split, Function.comp_def]

theorem join_eq_unlines (ls : List String) :
    String.join (ls.map (· ++ "\n")) = unlines (ls ++ [""]) := by
  induction ls with
  | nil => rfl
  | cons l ls ih =>
    obtain ⟨m, ms, eq⟩ := List.exists_cons_of_ne_nil (List.append_ne_nil_of_right_ne_nil ls
      (List.cons_ne_nil "" []))
    rw [List.map_cons, String.join_cons, ih, List.cons_append, unlines, unlines, eq,
      String.intercalate_cons_cons]

theorem exists_join_eq {ls : List String} (ne : ls ≠ []) :
    ∃ text, String.join (ls.map (· ++ "\n")) = text ++ "\n" := by
  obtain ⟨front, last, rfl⟩ := List.eq_nil_or_concat' ls |>.resolve_left ne
  refine ⟨String.join (front.map (· ++ "\n")) ++ last, ?_⟩
  simp [← String.toList_inj, String.toList_join]

/-- Lines that end with a line feed each are the rows of the whole, and nothing is behind them. -/
theorem rows_join {ls : List String} (h : ∀ l ∈ ls, OneLine l) :
    rows (String.join (ls.map (· ++ "\n"))) = ls ++ [""] := by
  have all : ∀ l ∈ ls ++ [""], OneLine l := by
    simpa [or_imp, forall_and] using ⟨h, by decide⟩
  rw [join_eq_unlines, rows_unlines all (by simp)]

end Annodoc.Text
