import Annodoc.Proofs.Comment.Independence
import Annodoc.Proofs.Grammar.Token
import Mathlib.Data.List.Basic

/-!
# Blocks are longest runs

The blocks of a source are found from its front, but what they are can be said without an order of
reading: a block is a run of marked lines with no marked line right above it or right below it.
-/

namespace Annodoc.Comment
open Grammar

/-- The lines of `b` are a run of marked lines that none of the two parts around it continues. -/
structure Block.Between (b : Block) (above below : List String) : Prop where
  next : b.next = below.head?
  nonempty : b.lines ≠ []
  marked : ∀ line ∈ b.lines, isMarked line = true
  begun : ∀ line ∈ above.getLast?, isMarked line = false
  ended : ∀ line ∈ below.head?, isMarked line = false

/-- `b` is a longest run of marked lines of the source, at its place. -/
def Block.IsRunOf (b : Block) (source : List String) : Prop :=
  ∃ above below, source = above ++ b.lines ++ below ∧ b.start = above.length + 1 ∧
    b.Between above below

variable {start : Nat} {source lines above below : List String} {b : Block}

theorem head?_dropWhile_isMarked (lines : List String) :
    ∀ line ∈ (lines.dropWhile isMarked).head?, isMarked line = false := by
  intro line h
  have stopped := List.head?_dropWhile_not isMarked lines
  rw [Option.mem_def.mp h] at stopped
  simpa using stopped

/-- A source that begins with a run has it as its first block. -/
theorem blocksFrom_run (start : Nat) (h : b.Between above below) :
    blocksFrom start (b.lines ++ below) =
      ⟨start, b.lines, b.next⟩ :: blocksFrom (start + b.lines.length) below := by
  obtain ⟨line, rest, eq⟩ := List.exists_cons_of_ne_nil h.nonempty
  have marked := h.marked
  rw [eq] at marked ⊢
  have first : isMarked line = true := marked line (by simp)
  have others : ∀ l ∈ rest, isMarked l = true := fun l hl => marked l (List.mem_cons_of_mem _ hl)
  have taken := takeWhile_append_exact others h.ended
  have dropped := dropWhile_append_exact others h.ended
  rw [List.cons_append, blocksFrom, if_pos first]
  simp only [taken, dropped, h.next, List.length_cons]
  rw [Nat.add_assoc start, Nat.add_comm 1]

theorem mem_blocksFrom (start : Nat) (h : b.Between above below) :
    ⟨start + above.length, b.lines, b.next⟩ ∈ blocksFrom start (above ++ b.lines ++ below) := by
  rcases List.eq_nil_or_concat' above with rfl | ⟨front, x, rfl⟩
  · rw [List.nil_append, blocksFrom_run start h]
    simp
  · have hx : isMarked x = false := h.begun x (by simp)
    have eq : front ++ [x] ++ b.lines ++ below = front ++ x :: (b.lines ++ below) := by simp
    rw [eq, blocksFrom_append hx, blocksFrom_run _ h]
    simp

/-- A run does not begin where an unmarked line or the end is, so some line is left out above it. -/
theorem Block.Between.above_ne_nil {front after : List String} (h : b.Between front after)
    (ended : ∀ line ∈ (above ++ b.lines ++ below).head?, isMarked line = false) : above ≠ [] := by
  rintro rfl
  obtain ⟨first, others, eq⟩ := List.exists_cons_of_ne_nil h.nonempty
  have yes : isMarked first = true := h.marked first (by simp [eq])
  have no : isMarked first = false := ended first (by simp [eq])
  exact absurd yes (by simp [no])

theorem exists_of_mem_blocksFrom (h : b ∈ blocksFrom start source) :
    ∃ above below, source = above ++ b.lines ++ below ∧ b.start = start + above.length ∧
      b.Between above below := by
  fun_induction blocksFrom start source with
  | case1 => simp at h
  | case2 start line rest marked run below ih =>
    have split : rest = run ++ below := List.takeWhile_append_dropWhile.symm
    have ended : ∀ line ∈ below.head?, isMarked line = false := head?_dropWhile_isMarked rest
    rcases List.mem_cons.mp h with rfl | h
    · have all : ∀ l ∈ line :: run, isMarked l = true :=
        List.forall_mem_cons.mpr ⟨marked, fun l hl => List.mem_takeWhile_imp hl⟩
      exact ⟨[], below, by simp [split], by simp, rfl, by simp, all, by simp, ended⟩
    · -- The line right below the first run stands between the two blocks.
      obtain ⟨above, after, hb, hs, between⟩ := ih h
      have apart : above ≠ [] := between.above_ne_nil (hb ▸ ended)
      refine ⟨line :: run ++ above, after, by simp [split, hb], ?_, between.next,
        between.nonempty, between.marked, ?_, between.ended⟩
      · simp only [hs, List.length_append, List.length_cons]
        omega
      · rw [List.getLast?_append_of_ne_nil _ apart]
        exact between.begun
  | case3 start line rest unmarked ih =>
    obtain ⟨above, after, hb, hs, between⟩ := ih h
    refine ⟨line :: above, after, by simp [hb], ?_, between.next, between.nonempty,
      between.marked, ?_, between.ended⟩
    · simp only [hs, List.length_cons]
      omega
    · intro l hl
      cases above with
      | nil =>
        obtain rfl : line = l := by simpa using hl
        simpa using unmarked
      | cons x above => exact between.begun l (by simpa using hl)

/-- The blocks of a source are its longest runs of marked lines, and no other. -/
theorem mem_blocks_iff : b ∈ blocks source ↔ b.IsRunOf source := by
  constructor
  · intro h
    obtain ⟨above, below, hb, hs, between⟩ := exists_of_mem_blocksFrom h
    exact ⟨above, below, hb, by omega, between⟩
  · intro h
    obtain ⟨above, below, rfl, hs, between⟩ := h
    have found := mem_blocksFrom 1 between
    rwa [Nat.add_comm, ← hs] at found

/-- Between two blocks stands an unmarked line at least. -/
theorem pairwise_blocksFrom (start : Nat) (source : List String) :
    (blocksFrom start source).Pairwise fun a b => a.start + a.lines.length < b.start := by
  fun_induction blocksFrom start source with
  | case1 => exact .nil
  | case2 start line rest marked run below ih =>
    refine List.pairwise_cons.mpr ⟨fun b hb => ?_, ih⟩
    obtain ⟨above, after, eq, hs, between⟩ := exists_of_mem_blocksFrom hb
    have ended : ∀ line ∈ below.head?, isMarked line = false := head?_dropWhile_isMarked rest
    have apart : above ≠ [] := between.above_ne_nil (eq ▸ ended)
    have pos : 0 < above.length := List.length_pos_iff.mpr apart
    simp only [hs, List.length_cons]
    omega
  | case3 start line rest unmarked ih => exact ih

end Annodoc.Comment
