import Annodoc.Proofs.Comment.Places
import Annodoc.Proofs.Comment.TagLines

/-!
# Function blocks one below the other

A block that begins with a tag, below another block, adds its clauses to those above, and its
failures move down. A clause that the upper block leaves open takes nothing from the lower one, and
where the upper one fails, the lower one is never read.
-/

namespace Annodoc
open Text Grammar
open LineMismatch (atLine)

/-- The same failure, `n` lines further down. -/
def LineMismatch.movedBy (n : Nat) (e : LineMismatch) : LineMismatch :=
  { e with line := e.line + n }

/-- What clauses document of which some come first and the others below them. -/
def FunctionDoc.followedBy (f g : FunctionDoc) : FunctionDoc :=
  { f with
    params := f.params ++ g.params
    returns := f.returns ++ g.returns
    sample := g.sample.or f.sample
    note := g.note.or f.note
    isPrivate := f.isPrivate || g.isPrivate
    isDeprecated := f.isDeprecated || g.isDeprecated }

namespace Comment

/-- The first line that holds text, if there is one, has a tag. -/
def BeginsTagged (block : List (List Char)) : Prop :=
  ∀ line ∈ block.find? fun line => !isEmptyText line, (tag? line).isSome = true

instance (block : List (List Char)) : Decidable (BeginsTagged block) :=
  inferInstanceAs (Decidable (∀ _ ∈ _, _))

/-- How a failure shows once more lines follow: above `stop` it stays as it is, and a text that is
missing on line `stop` is still missing there. -/
inductive Persists (stop : Nat) (e : LineMismatch) : LineMismatch → Prop where
  | same : e.line < stop → Persists stop e e
  | missing {e' : LineMismatch} : e.line = stop → e'.line = stop →
      e.error.expected = .indentedLine → e'.error.expected = .indentedLine → Persists stop e e'

theorem Persists.line_le {stop : Nat} {e e' : LineMismatch} (h : Persists stop e e') :
    e.line ≤ stop := by
  cases h with
  | same lt => exact Nat.le_of_lt lt
  | missing eq => exact Nat.le_of_eq eq

variable {limit index n : Nat} {line text next : List Char} {a b block : List (List Char)}
  {e : LineMismatch}

/-! ## Further down -/

theorem atLine_add {α : Type} (reading : Except Stop α) :
    atLine (index + n) line reading =
      (atLine index line reading).mapError (LineMismatch.movedBy n) := by
  cases reading <;> rfl

theorem mapError_bind {ε δ α β : Type} (x : Except ε α) (f : α → Except ε β) (g : ε → δ) :
    (x >>= f).mapError g = x.mapError g >>= fun a => (f a).mapError g := by
  cases x <;> rfl

theorem subparams_add (lines : List (List Char)) :
    subparams limit (index + n) lines =
      (subparams limit index lines).mapError (LineMismatch.movedBy n) := by
  induction lines generalizing index with
  | nil => rfl
  | cons line lines ih =>
    simp only [subparams, mapError_bind, atLine_add, Nat.add_right_comm index n 1, ih]
    rfl

theorem bodyText_add (indented : List (List Char)) :
    bodyText (index + n) indented next =
      (bodyText index indented next).mapError (LineMismatch.movedBy n) := by
  rw [bodyText, bodyText]
  split <;> rfl

theorem clause_add (tag : Tag) (indented : List (List Char)) :
    clause limit (index + n) line tag text indented next =
      (clause limit index line tag text indented next).mapError (LineMismatch.movedBy n) := by
  cases tag <;>
    simp only [clause, mapError_bind, atLine_add, Nat.add_right_comm index n 1, subparams_add,
      bodyText_add] <;>
    rfl

/-- The clauses of a block do not depend on where it stands, and its failures stand where it
does. -/
theorem clauses_add (limit index n : Nat) (block : List (List Char)) :
    clauses limit (index + n) block =
      (clauses limit index block).mapError (LineMismatch.movedBy n) := by
  fun_induction clauses limit index block with
  | case1 => simp [clauses, Except.mapError]
  | case2 index line rest empty ih =>
    rw [clauses, if_pos empty, Nat.add_right_comm, ih]
  | case3 index line rest inked untagged =>
    rw [clauses, if_neg inked, untagged]
    exact atLine_add _
  | case4 index line rest inked tag text split indented ih =>
    rw [clauses, if_neg inked, split]
    have place : index + n + 1 + indented.length = index + 1 + indented.length + n := by omega
    simp only [mapError_bind, clause_add]
    change _ = (clause limit index line tag text indented _).mapError _ >>= fun c =>
      (clauses limit (index + 1 + indented.length) _).mapError _ >>= _
    rw [← ih, ← place]
    rfl

/-! ## Clauses above and below -/

/-- The lines right below a tag that belong to its clause. -/
def Tag.owned (tag : Tag) (rest : List (List Char)) : List (List Char) :=
  if tag.hasBody then rest.takeWhile isInnerText else []

theorem Tag.owned_prefix (tag : Tag) (rest : List (List Char)) : tag.owned rest <+: rest := by
  rw [Tag.owned]
  split
  · exact List.takeWhile_prefix isInnerText
  · exact List.nil_prefix

theorem length_below_owned (index : Nat) (tag : Tag) (rest : List (List Char)) :
    index + 1 + (tag.owned rest).length + (rest.drop (tag.owned rest).length).length =
      index + (rest.length + 1) := by
  have short := (tag.owned_prefix rest).length_le
  rw [List.length_drop]
  omega

/-- One clause of a block, and those below the lines that it owns. -/
theorem clauses_tagged {tag : Tag} (split : splitTag line = some (tag, text))
    (rest : List (List Char)) :
    clauses limit index (line :: rest) =
      clause limit index line tag text (tag.owned rest) (rest.head?.getD []) >>= fun c =>
        (clauses limit (index + 1 + (tag.owned rest).length)
          (rest.drop (tag.owned rest).length)).map (c :: ·) := by
  have tagged : tag? line = some tag := by rw [tag?, split, Option.map_some]
  rw [clauses, isEmptyText_eq_false_of_tag tagged, if_neg Bool.false_ne_true, split]
  rfl

/-- The line below a clause shows in nothing that the clause holds. -/
theorem clause_ok_next {tag : Tag} {indented : List (List Char)} {c : Clause}
    (h : clause limit index line tag text indented next = .ok c) (next' : List Char) :
    clause limit index line tag text indented next' = .ok c := by
  have body {i : Nat} {t : String} (h : bodyText i indented next = .ok t) :
      bodyText i indented next' = .ok t := by
    rw [bodyText] at h ⊢
    split at h
    · cases h
    · next some => rwa [if_neg some]
  cases tag with
  | sample | note =>
    simp only [clause, bind_eq_ok_iff] at h ⊢
    obtain ⟨u, closed, t, ht, h⟩ := h
    exact ⟨u, closed, t, body ht, h⟩
  | _ => exact h

/-- It shows in one failure only, that of a missing text, which is missing whatever stands there. -/
theorem clause_error_next {tag : Tag} {indented : List (List Char)}
    (h : clause limit index line tag text indented next = .error e) (next' : List Char) :
    ∃ e', clause limit index line tag text indented next' = .error e' ∧
      (e.line < index + 1 + indented.length ∧ e' = e ∨
        indented = [] ∧ Persists (index + 1) e e') := by
  have here {α : Type} {reading : Except Stop α} (h : atLine index line reading = .error e) :
      e.line < index + 1 + indented.length := by
    rw [line_of_atLine_eq_error h]
    omega
  have body (missing : bodyText (index + 1) indented next = .error e) :
      ∃ e', bodyText (index + 1) indented next' = .error e' ∧
        indented = [] ∧ Persists (index + 1) e e' := by
    by_cases none : indented = []
    · rw [bodyText, if_pos none] at missing ⊢
      cases missing
      exact ⟨_, rfl, none, .missing rfl rfl rfl rfl⟩
    · rw [bodyText, if_neg none] at missing
      cases missing
  cases tag with
  | sample | note =>
    simp only [clause, bind_eq_error_iff] at h ⊢
    rcases h with h | ⟨u, closed, h | ⟨t, -, h⟩⟩
    · exact ⟨e, .inl h, .inl ⟨here h, rfl⟩⟩
    · obtain ⟨e', he', none, persists⟩ := body h
      exact ⟨e', .inr ⟨u, closed, .inl he'⟩, .inr ⟨none, persists⟩⟩
    · cases h
  | param =>
    refine ⟨e, h, .inl ⟨?_, rfl⟩⟩
    simp only [clause, bind_eq_error_iff] at h
    rcases h with h | ⟨p, -, h | ⟨subs, -, h⟩⟩
    · exact here h
    · exact subparams_line_lt h
    · cases h
  | returns | privateMark | deprecatedMark =>
    refine ⟨e, h, .inl ⟨?_, rfl⟩⟩
    simp only [clause, bind_eq_error_iff] at h
    rcases h with h | ⟨found, -, h⟩
    · exact here h
    · cases h
  | _ => exact ⟨e, h, .inl ⟨here h, rfl⟩⟩

section
variable (ends : ∀ line ∈ b.head?, isInnerText line = false)
include ends

theorem takeWhile_append_ends (a : List (List Char)) :
    (a ++ b).takeWhile isInnerText = a.takeWhile isInnerText := by
  induction a with
  | nil =>
    cases b with
    | nil => rfl
    | cons line b => simp [ends line rfl]
  | cons line a ih => simp only [List.cons_append, List.takeWhile_cons, ih]

/-- A tag owns the same lines, whatever stands below the block. -/
theorem Tag.owned_append (tag : Tag) (rest : List (List Char)) :
    tag.owned (rest ++ b) = tag.owned rest := by
  rw [Tag.owned, takeWhile_append_ends ends, ← Tag.owned]

theorem clauses_append_ok {cs : List Clause} (h : clauses limit index a = .ok cs) :
    clauses limit index (a ++ b) =
      (clauses limit (index + a.length) b).map (cs ++ ·) := by
  fun_induction clauses limit index a generalizing cs with
  | case1 index =>
    cases h
    cases eq : clauses limit index b <;> simp [eq, Except.map]
  | case2 index line rest empty ih =>
    rw [List.cons_append, clauses, if_pos empty, ih h, List.length_cons, Nat.add_assoc,
      Nat.add_comm 1]
  | case3 index line rest inked untagged => cases h
  | case4 index line rest inked tag text split indented =>
    rename_i ih
    have own : indented = tag.owned rest := rfl
    rw [own] at h ih
    simp only [bind_eq_ok_iff] at h
    obtain ⟨c, hc, ds, hds, h⟩ := h
    cases h
    have below := ih hds
    rw [length_below_owned,
      ← List.drop_append_of_le_length (tag.owned_prefix rest).length_le] at below
    rw [List.cons_append, clauses_tagged split, Tag.owned_append ends, clause_ok_next hc]
    refine Eq.trans (congrArg (Except.map _) below) ?_
    rw [List.length_cons]
    cases clauses limit (index + (rest.length + 1)) b <;> rfl

theorem clauses_append_error (h : clauses limit index a = .error e) :
    ∃ e', clauses limit index (a ++ b) = .error e' ∧ Persists (index + a.length) e e' := by
  fun_induction clauses limit index a with
  | case1 index => cases h
  | case2 index line rest empty ih =>
    obtain ⟨e', he', persists⟩ := ih h
    rw [List.cons_append, clauses, if_pos empty, List.length_cons, ← Nat.add_assoc,
      Nat.add_right_comm]
    exact ⟨e', he', persists⟩
  | case3 index line rest inked untagged =>
    rw [List.cons_append, clauses, if_neg inked, untagged]
    refine ⟨e, h, .same ?_⟩
    rw [line_of_atLine_eq_error h, List.length_cons]
    omega
  | case4 index line rest inked tag text split indented =>
    rename_i ih
    have own : indented = tag.owned rest := rfl
    rw [own] at h ih
    have short := (tag.owned_prefix rest).length_le
    rw [List.cons_append, clauses_tagged split, Tag.owned_append ends,
      List.drop_append_of_le_length short, List.length_cons]
    simp only [bind_eq_error_iff] at h
    rcases h with h | ⟨c, hc, h | ⟨ds, -, h⟩⟩
    · obtain ⟨e', he', persists⟩ := clause_error_next h ((rest ++ b).head?.getD [])
      refine ⟨e', bind_eq_error_iff.mpr (.inl he'), ?_⟩
      rcases persists with ⟨place, rfl⟩ | ⟨none, persists⟩
      · exact .same (by omega)
      · cases rest with
        | nil => exact persists
        | cons next rest =>
          -- The line below is one of the upper block, so it is the same in both readings.
          obtain rfl : e = e' := Except.error.inj (h.symm.trans he')
          refine .same ?_
          have := persists.line_le
          rw [List.length_cons]
          omega
    · obtain ⟨e', he', persists⟩ := ih h
      rw [length_below_owned] at persists
      refine ⟨e', bind_eq_error_iff.mpr (.inr ⟨c, clause_ok_next hc _, ?_⟩), persists⟩
      exact congrArg (Except.map _) he'
    · cases h

end

/-! ## The summary -/

theorem functionOfClauses_append (name above below : String) (cs ds : List Clause) :
    functionOfClauses name above (cs ++ ds) =
      (functionOfClauses name above cs).followedBy (functionOfClauses name below ds) := by
  simp only [functionOfClauses, FunctionDoc.followedBy, List.filterMap_append, List.getLast?_append,
    List.any_append]

/-- A block has only empty lines, or some of them and then a line that holds text. -/
theorem empty_or_inked (block : List (List Char)) :
    (∀ line ∈ block, isEmptyText line = true) ∨ ∃ front line below,
      block = front ++ line :: below ∧ (∀ l ∈ front, isEmptyText l = true) ∧
        isEmptyText line = false := by
  cases found : block.find? fun line => !isEmptyText line with
  | none => exact .inl (by simpa using found)
  | some line =>
    obtain ⟨inked, front, below, rfl, empty⟩ := List.find?_eq_some_iff_append.mp found
    exact .inr ⟨front, line, below, rfl, by simpa using empty, by simpa using inked⟩

section
variable {front : List (List Char)} (empty : ∀ line ∈ front, isEmptyText line = true)
include empty

theorem clauses_skip_empty (limit index : Nat) (block : List (List Char)) :
    clauses limit index (front ++ block) = clauses limit (index + front.length) block := by
  induction front generalizing index with
  | nil => rfl
  | cons line front ih =>
    obtain ⟨first, others⟩ := List.forall_mem_cons.mp empty
    rw [List.cons_append, clauses, if_pos first, ih others, List.length_cons, Nat.add_assoc,
      Nat.add_comm 1]

theorem summaryAndClauses_of_empty : summaryAndClauses front = ("", front.length, []) := by
  have all : front.takeWhile isEmptyText = front := List.takeWhile_eq_self_iff.mpr empty
  simp only [summaryAndClauses, all, List.drop_length]

theorem summaryAndClauses_of_inked (inked : isEmptyText line = false)
    (below : List (List Char)) :
    summaryAndClauses (front ++ line :: below) =
      if (tag? line).isNone then (String.ofList (trim line), front.length + 1, below)
      else ("", front.length, line :: below) := by
  have taken : (front ++ line :: below).takeWhile isEmptyText = front :=
    takeWhile_append_exact empty (by simpa using inked)
  simp only [summaryAndClauses, taken, List.drop_left]

theorem find?_of_empty : front.find? (fun line => !isEmptyText line) = none := by
  simpa [List.find?_eq_none] using empty

theorem BeginsTagged.empty_append (h : BeginsTagged b) : BeginsTagged (front ++ b) := by
  rwa [BeginsTagged, List.find?_append, find?_of_empty empty, Option.none_or]

theorem beginsTagged_of_empty : BeginsTagged front := by
  rw [BeginsTagged, find?_of_empty empty]
  simp

end

/-- A block that begins with a tag has no summary, and its clauses may be read from its start. -/
theorem BeginsTagged.summaryAndClauses_eq (h : BeginsTagged b) (limit : Nat) :
    ∃ index rest, summaryAndClauses b = ("", index, rest) ∧
      clauses limit index rest = clauses limit 0 b := by
  rcases empty_or_inked b with empty | ⟨front, line, below, rfl, empty, inked⟩
  · have read := clauses_skip_empty empty limit 0 []
    rw [List.append_nil, Nat.zero_add] at read
    exact ⟨b.length, [], summaryAndClauses_of_empty empty, read.symm⟩
  · have tagged : (tag? line).isSome = true := by
      apply h line
      simp [List.find?_append, find?_of_empty empty, inked]
    have noSummary : (tag? line).isNone = false := by simpa using tagged
    refine ⟨front.length, line :: below, ?_, ?_⟩
    · rw [summaryAndClauses_of_inked empty inked, noSummary]
      rfl
    · rw [clauses_skip_empty empty, Nat.zero_add]

/-- A line that holds text above the cut settles the summary. -/
theorem summaryAndClauses_append_inked {a : List (List Char)}
    (inked : ∃ line ∈ a, isEmptyText line = false) (b : List (List Char)) :
    summaryAndClauses (a ++ b) = ((summaryAndClauses a).1, (summaryAndClauses a).2.1,
      (summaryAndClauses a).2.2 ++ b) := by
  rcases empty_or_inked a with empty | ⟨front, line, below, rfl, empty, inked⟩
  · obtain ⟨line, mem, inked⟩ := inked
    rw [empty line mem] at inked
    cases inked
  · rw [List.append_assoc, List.cons_append, summaryAndClauses_of_inked empty inked,
      summaryAndClauses_of_inked empty inked]
    split <;> rfl

/-- A block that begins with a tag leaves the summary of the block above it. -/
theorem summaryAndClauses_append (h : BeginsTagged b) (limit : Nat) (a : List (List Char)) :
    ∃ index rest, summaryAndClauses (a ++ b) = ((summaryAndClauses a).1, index, rest) ∧
      clauses limit index rest =
        clauses limit (summaryAndClauses a).2.1 ((summaryAndClauses a).2.2 ++ b) := by
  rcases empty_or_inked a with empty | ⟨front, line, below, rfl, empty, inked⟩
  · obtain ⟨index, rest, split, read⟩ := (h.empty_append empty).summaryAndClauses_eq limit
    refine ⟨index, rest, by rw [split, summaryAndClauses_of_empty empty], ?_⟩
    rw [read, summaryAndClauses_of_empty empty, clauses_skip_empty empty, Nat.zero_add]
    rfl
  · have text : ∃ l ∈ front ++ line :: below, isEmptyText l = false :=
      ⟨line, List.mem_append_cons_self, inked⟩
    exact ⟨_, _, summaryAndClauses_append_inked text b, rfl⟩

/-! ## Function blocks -/

/-- No line of a block that begins with a tag belongs to the clauses above it. -/
theorem BeginsTagged.ends (h : BeginsTagged b) : ∀ line ∈ b.head?, isInnerText line = false := by
  intro line hl
  obtain ⟨below, rfl⟩ := List.head?_eq_some_iff.mp hl
  cases inked : isEmptyText line with
  | true => exact isInnerText_eq_false_of_isEmptyText inked
  | false =>
    obtain ⟨tag, ht⟩ := Option.isSome_iff_exists.mp (h line (by simp [inked]))
    exact isInnerText_eq_false_of_tag ht

theorem functionBlockWithin_eq_ok_iff {name : String} {lines : List String} {f : FunctionDoc} :
    functionBlockWithin limit name lines = .ok f ↔
      ∃ cs, clauses limit (summaryAndClauses (lines.map body)).2.1
          (summaryAndClauses (lines.map body)).2.2 = .ok cs ∧
        functionOfClauses name (summaryAndClauses (lines.map body)).1 cs = f := by
  simp only [functionBlockWithin, bind_eq_ok_iff, Except.ok.injEq]

theorem functionBlockWithin_eq_error_iff {name : String} {lines : List String} :
    functionBlockWithin limit name lines = .error e ↔
      clauses limit (summaryAndClauses (lines.map body)).2.1
          (summaryAndClauses (lines.map body)).2.2 = .error e := by
  simp [functionBlockWithin, bind_eq_error_iff]

section
variable {name : String} {a b : List String} {f g : FunctionDoc}

/-- The clauses of the lower block are read after those of the upper one. -/
theorem functionBlockWithin_append (tagged : BeginsTagged (b.map body)) :
    functionBlockWithin limit name (a ++ b) =
      (clauses limit (summaryAndClauses (a.map body)).2.1
        ((summaryAndClauses (a.map body)).2.2 ++ b.map body)).map
          (functionOfClauses name (summaryAndClauses (a.map body)).1) := by
  obtain ⟨index, rest, split, read⟩ := summaryAndClauses_append tagged limit (a.map body)
  rw [functionBlockWithin, List.map_append, split, ← read]
  rfl

theorem functionBlockWithin_tagged (tagged : BeginsTagged (b.map body)) :
    functionBlockWithin limit name b =
      (clauses limit 0 (b.map body)).map (functionOfClauses name "") := by
  obtain ⟨index, rest, split, read⟩ := tagged.summaryAndClauses_eq limit
  rw [functionBlockWithin, split, ← read]
  rfl

theorem functionBlockWithin_append_ok (tagged : BeginsTagged (b.map body))
    (h : functionBlockWithin limit name a = .ok f) :
    functionBlockWithin limit name (a ++ b) =
      ((functionBlockWithin limit name b).map f.followedBy).mapError
        (LineMismatch.movedBy a.length) := by
  obtain ⟨cs, above, rfl⟩ := functionBlockWithin_eq_ok_iff.mp h
  have place := length_summaryAndClauses (a.map body)
  rw [List.length_map, ← Nat.zero_add a.length] at place
  rw [functionBlockWithin_append tagged, clauses_append_ok tagged.ends above, place, clauses_add,
    functionBlockWithin_tagged tagged]
  cases clauses limit 0 (b.map body) with
  | error e => simp [Except.map, Except.mapError]
  | ok ds => simp [Except.map, Except.mapError, functionOfClauses_append name _ ""]

theorem functionBlockWithin_append_error (tagged : BeginsTagged (b.map body))
    (h : functionBlockWithin limit name a = .error e) :
    ∃ e', functionBlockWithin limit name (a ++ b) = .error e' ∧ Persists a.length e e' := by
  have place := length_summaryAndClauses (a.map body)
  obtain ⟨e', below, persists⟩ :=
    clauses_append_error tagged.ends (functionBlockWithin_eq_error_iff.mp h)
  rw [place, List.length_map] at persists
  refine ⟨e', ?_, persists⟩
  rw [functionBlockWithin_append tagged, below]
  rfl

/-- Empty lines below a block add nothing to it. -/
theorem functionBlockWithin_append_empty (h : functionBlockWithin limit name a = .ok f)
    {empty : List String} (blank : ∀ line ∈ empty, isEmptyText (body line) = true) :
    functionBlockWithin limit name (a ++ empty) = .ok f := by
  have lines : ∀ line ∈ empty.map body, isEmptyText line = true := by simpa using blank
  have nothing := clauses_skip_empty lines limit 0 []
  rw [List.append_nil, clauses] at nothing
  rw [functionBlockWithin_append_ok (beginsTagged_of_empty lines) h,
    functionBlockWithin_tagged (beginsTagged_of_empty lines), nothing]
  simp [Except.map, Except.mapError, functionOfClauses, FunctionDoc.followedBy]

end

/-- A block that begins with a tag, below another block of the same function. Where both can be
read, what the upper one documents is followed by what the lower one does, with any empty lines
between them. A failure of the lower one moves down by the lines of the upper one. A failure of the
upper one stays, and only a text that is missing below its last line is missed in front of the
lower block. -/
theorem functionBlock_append (name : String) (a b : List String)
    (tagged : BeginsTagged (b.map body)) :
    (∀ f g, functionBlock name a = .ok f → functionBlock name b = .ok g →
      functionBlock name (a ++ b) = .ok (f.followedBy g) ∧
      ∀ empty : List String, (∀ line ∈ empty, isEmptyText (body line) = true) →
        functionBlock name (a ++ empty ++ b) = .ok (f.followedBy g)) ∧
    (∀ f e, functionBlock name a = .ok f → functionBlock name b = .error e →
      functionBlock name (a ++ b) = .error (e.movedBy a.length)) ∧
    (∀ e, functionBlock name a = .error e → e.line ≤ a.length ∧
      (e.line < a.length → functionBlock name (a ++ b) = .error e) ∧
      (e.line = a.length → e.error.expected = .indentedLine ∧
        ∃ e', functionBlock name (a ++ b) = .error e' ∧ e'.line = a.length ∧
          e'.error.expected = .indentedLine)) := by
  refine ⟨fun f g hf hg => ?_, fun f e hf he => ?_, fun e he => ?_⟩
  · have both {a : List String} (hf : functionBlock name a = .ok f) :
        functionBlock name (a ++ b) = .ok (f.followedBy g) := by
      rw [functionBlock, functionBlockWithin_append_ok tagged hf, ← functionBlock, hg]
      rfl
    exact ⟨both hf, fun empty blank => both (functionBlockWithin_append_empty hf blank)⟩
  · rw [functionBlock, functionBlockWithin_append_ok tagged hf, ← functionBlock, he]
    rfl
  · obtain ⟨e', he', persists⟩ := functionBlockWithin_append_error tagged he
    refine ⟨persists.line_le, fun above => ?_, fun last => ?_⟩
    · cases persists with
      | same => exact he'
      | missing place => omega
    · cases persists with
      | same => omega
      | missing _ place wanted wanted' => exact ⟨wanted, e', he', place, wanted'⟩

theorem functionBlock_append_open_clauses :
    let a := ["---Opens", "---@param x table", "---    y nil"]
    let b := ["---", "---@private", "---@return nil"]
    let bad := ["---@return nil", "---@return Nil"]
    let short := ["---Opens", "---@example"]
    (BeginsTagged (b.map body) ∧ BeginsTagged (bad.map body)) ∧
    (∃ f g, functionBlock "f" a = .ok f ∧ functionBlock "f" b = .ok g ∧
      functionBlock "f" (a ++ b) = .ok (f.followedBy g) ∧
      functionBlock "f" (a ++ ["---  "] ++ b) = .ok (f.followedBy g)) ∧
    (∃ f e, functionBlock "f" a = .ok f ∧ functionBlock "f" bad = .error e ∧
      functionBlock "f" (a ++ bad) = .error (e.movedBy 3)) ∧
    (∃ e, functionBlock "f" bad = .error e ∧ e.line = 1 ∧ functionBlock "f" (bad ++ b) = .error e) ∧
    ∃ e e', functionBlock "f" short = .error e ∧ e.line = 2 ∧
      functionBlock "f" (short ++ b) = .error e' ∧ e'.line = 2 := by
  intro a b bad short
  have tagged : BeginsTagged (b.map body) := by decide
  have tagged' : BeginsTagged (bad.map body) := by decide
  have read (lines : List String) (h : (functionBlock "f" lines).toOption.isSome = true) :
      ∃ f, functionBlock "f" lines = .ok f := by
    cases eq : functionBlock "f" lines with
    | ok f => exact ⟨f, rfl⟩
    | error e => simp [eq, Except.toOption] at h
  have failed (lines : List String) (n : Nat)
      (h : ((functionBlock "f" lines).mapError LineMismatch.line).map (fun _ => ()) = .error n) :
      ∃ e, functionBlock "f" lines = .error e ∧ e.line = n := by
    cases eq : functionBlock "f" lines with
    | ok f =>
      rw [eq] at h
      cases h
    | error e =>
      rw [eq] at h
      exact ⟨e, rfl, Except.error.inj h⟩
  obtain ⟨f, hf⟩ := read a (by decide +kernel)
  obtain ⟨g, hg⟩ := read b (by decide +kernel)
  obtain ⟨e, he, first⟩ := failed bad 1 (by decide +kernel)
  obtain ⟨m, hm, last⟩ := failed short 2 (by decide +kernel)
  obtain ⟨both, -, -⟩ := functionBlock_append "f" a b tagged
  obtain ⟨-, below, -⟩ := functionBlock_append "f" a bad tagged'
  obtain ⟨-, -, above⟩ := functionBlock_append "f" bad b tagged
  obtain ⟨-, -, missing⟩ := functionBlock_append "f" short b tagged
  obtain ⟨together, spaced⟩ := both f g hf hg
  obtain ⟨-, m', hm', place, -⟩ := (missing m hm).2.2 last
  refine ⟨⟨tagged, tagged'⟩, ⟨f, g, hf, hg, together, spaced ["---  "] (by decide)⟩,
    ⟨f, e, hf, he, below f e hf he⟩, ⟨e, he, first, (above e he).2.1 ?_⟩, m, m', hm, last, hm',
    place⟩
  rw [first]
  decide

end Comment
end Annodoc
