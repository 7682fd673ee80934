import Annodoc.Proofs.FileSystem.Spelling

/-!
# What lies below a directory

A walk below a directory finds every chain of names that the tree has there, and spells it with the
path of the directory in front. Different chains have different paths, also by their components.
-/

namespace Annodoc

namespace Path
variable {path name : String} {names : List String}

/-- A name that a system allows for an entry. -/
structure IsFileName (name : String) : Prop extends IsEntryName name where
  no_zero : '\x00' ∉ name.toList
  short : name.utf8ByteSize ≤ FileSystem.nameLimit

instance (name : String) : Decidable (IsFileName name) :=
  decidable_of_iff ((name ≠ "" ∧ name ≠ "." ∧ name ≠ ".." ∧ '/' ∉ name.toList) ∧
    '\x00' ∉ name.toList ∧ name.utf8ByteSize ≤ FileSystem.nameLimit)
    ⟨fun ⟨⟨empty, current, parent, slash⟩, zero, short⟩ =>
      ⟨⟨empty, current, parent, slash⟩, zero, short⟩,
    fun h => ⟨⟨h.ne_empty, h.ne_current, h.ne_parent, h.no_slash⟩, h.no_zero, h.short⟩⟩

/-! ## Components of spelled paths -/

theorem components_append_slash (given : path ≠ "") : components (path ++ "/") = components path := by
  obtain ⟨first, more, split⟩ := List.exists_cons_of_ne_nil (steps_ne_nil path)
  have nowhere (steps : List String) :
      (steps ++ [""]).filterMap Component.ofStep? = steps.filterMap Component.ofStep? := by
    have empty : [""].filterMap Component.ofStep? = [] := rfl
    rw [List.filterMap_append, empty, List.append_nil]
  rw [components, components, isAbsolute_append_of_ne given, steps_append_slash, split]
  cases isAbsolute path with
  | true => exact congrArg _ (nowhere (first :: more))
  | false =>
    by_cases dot : first = "."
    · subst dot
      exact congrArg _ (nowhere more)
    · simpa [dot] using nowhere (first :: more)

/-- A name adds one component to those of the path of its directory. -/
theorem components_join (given : path ≠ "") (h : IsEntryName name) :
    components (join path name) = components path ++ [.name name] := by
  rw [join]
  by_cases slash : path.toList.getLast? = some '/'
  · rw [if_pos (.inr slash)]
    obtain ⟨cs, split⟩ := List.getLast?_eq_some_iff.mp slash
    refine h.components_append (.inr ⟨String.ofList cs, ?_⟩)
    rw [← String.toList_inj, split]
    simp
  · rw [if_neg (by simp [given, slash]), h.components_append (.inr ⟨path, rfl⟩),
      components_append_slash given]

theorem join_ne_empty (given : path ≠ "") : join path name ≠ "" := by
  rw [join]
  split <;> simp [given]

theorem components_extend (given : path ≠ "") (h : IsEntryName name) :
    components (Glob.extend path name) =
      (if isCurrent path then [] else components path) ++ [.name name] := by
  rw [Glob.extend]
  split
  · have alone : components ("" ++ name) = [] ++ [.name name] := h.components_append (.inl rfl)
    rwa [String.empty_append] at alone
  · exact components_join given h

theorem components_foldl_join (given : path ≠ "") (entries : ∀ name ∈ names, IsEntryName name) :
    components (names.foldl join path) = components path ++ names.map .name := by
  induction names generalizing path with
  | nil => simp
  | cons name names ih =>
    rw [List.foldl_cons, ih (join_ne_empty given) fun n hn => entries n (List.mem_cons_of_mem _ hn),
      components_join given (entries name List.mem_cons_self), List.append_assoc]
    rfl

/-- A walk that has left the working directory keeps what it has spelled. -/
theorem foldl_extend_of_away (given : path ≠ "") (away : isCurrent path = false)
    (entries : ∀ name ∈ names, IsEntryName name) :
    names.foldl Glob.extend path = names.foldl join path := by
  induction names generalizing path with
  | nil => rfl
  | cons name names ih =>
    have on : Glob.extend path name = join path name := by rw [Glob.extend, away]; rfl
    have entry := entries name List.mem_cons_self
    have away' : isCurrent (join path name) = false := by
      rw [Bool.eq_false_iff] at away ⊢
      exact fun current => away (isCurrent_of_join given entry.no_slash current)
    rw [List.foldl_cons, List.foldl_cons, on, ih (join_ne_empty given) away' fun n hn =>
      entries n (List.mem_cons_of_mem _ hn)]

theorem extend_ne_empty (given : path ≠ "") (h : IsEntryName name) : Glob.extend path name ≠ "" := by
  rw [Glob.extend]
  split
  · exact h.ne_empty
  · exact join_ne_empty given

theorem isCurrent_extend (given : path ≠ "") (h : IsEntryName name) :
    isCurrent (Glob.extend path name) = false := by
  rw [Bool.eq_false_iff]
  intro current
  have one := of_decide_eq_true current
  rw [components_extend given h] at one
  split at one
  · cases one
  · exact absurd (congrArg List.getLast? one) (by simp)

/-- The names below a directory are spelled behind the first one. -/
theorem foldl_extend_cons (given : path ≠ "") (entries : ∀ n ∈ name :: names, IsEntryName n) :
    (name :: names).foldl Glob.extend path = names.foldl join (Glob.extend path name) := by
  have entry := entries name List.mem_cons_self
  exact foldl_extend_of_away (extend_ne_empty given entry) (isCurrent_extend given entry)
    fun n hn => entries n (List.mem_cons_of_mem _ hn)

/-- A chain of names adds its components to those of the directory, unless that is the working
directory. -/
theorem components_foldl_extend (given : path ≠ "") (nonempty : names ≠ [])
    (entries : ∀ name ∈ names, IsEntryName name) :
    components (names.foldl Glob.extend path) =
      (if isCurrent path then [] else components path) ++ names.map .name := by
  obtain ⟨name, names, rfl⟩ := List.exists_cons_of_ne_nil nonempty
  have entry := entries name List.mem_cons_self
  rw [foldl_extend_cons given entries, components_foldl_join (extend_ne_empty given entry)
    fun n hn => entries n (List.mem_cons_of_mem _ hn), components_extend given entry,
    List.append_assoc]
  rfl

end Path

namespace Node
variable {name : String} {names : List String} {node root : Node} {es : List (String × Node)}

/-! ## Trees -/

/-- A tree as a system holds it: in each directory the names are different, and allowed. -/
def WellFormed (root : Node) : Prop :=
  ∀ names es, root.at? names = some (.dir es) →
    (es.map Prod.fst).Nodup ∧ ∀ e ∈ es, Path.IsFileName e.1

theorem WellFormed.at? (h : root.WellFormed) (there : root.at? names = some node) :
    node.WellFormed := by
  intro more es deeper
  apply h (names ++ more) es
  rw [at?_append, there, Option.bind_some, deeper]

theorem child?_eq_some_iff (distinct : (es.map Prod.fst).Nodup) :
    child? name es = some node ↔ (name, node) ∈ es := by
  induction es with
  | nil => simp [child?]
  | cons e es ih =>
    obtain ⟨other, old⟩ := e
    obtain ⟨fresh, distinct⟩ := List.nodup_cons.mp distinct
    by_cases same : other = name
    · subst same
      have absent : (other, node) ∉ es := fun mem => fresh (List.mem_map.mpr ⟨_, mem, rfl⟩)
      simp [child?, absent, eq_comm]
    · have differ : ¬ name = other := fun eq => same eq.symm
      simpa [child?, same, differ] using ih distinct

theorem wellFormed_file (content : Content) : (file content).WellFormed := by
  intro names es there
  cases names <;> cases there

theorem wellFormed_dir (distinct : (es.map Prod.fst).Nodup)
    (each : ∀ e ∈ es, Path.IsFileName e.1 ∧ e.2.WellFormed) : (dir es).WellFormed := by
  intro names below there
  cases names with
  | nil =>
    obtain rfl := Node.dir.inj (Option.some.inj there)
    exact ⟨distinct, fun e he => (each e he).1⟩
  | cons name names =>
    have one : (dir es).at? (name :: names) = (child? name es).bind (Node.at? names) := rfl
    rw [one, Option.bind_eq_some_iff] at there
    obtain ⟨node, child, there⟩ := there
    exact (each _ ((child?_eq_some_iff distinct).mp child)).2 names below there

theorem wellFormed_singleton (allowed : Path.IsFileName name) (tree : node.WellFormed) :
    (dir [(name, node)]).WellFormed :=
  wellFormed_dir (by simp) (by simp [allowed, tree])

/-- A chain of names leads on from an entry of a directory. -/
theorem at?_cons_eq_some_iff {goal : Node} (tree : node.WellFormed) :
    node.at? (name :: names) = some goal ↔ ∃ es below, node = .dir es ∧ (name, below) ∈ es ∧
      below.WellFormed ∧ below.at? names = some goal := by
  cases node with
  | file => simp [Node.at?]
  | dir es =>
    have distinct := (tree [] es rfl).1
    have one : (dir es).at? (name :: names) = (child? name es).bind (Node.at? names) := rfl
    rw [one, Option.bind_eq_some_iff]
    constructor
    · rintro ⟨below, child, there⟩
      have first : (dir es).at? [name] = some below := by rw [at?_singleton]; exact child
      exact ⟨es, below, rfl, (child?_eq_some_iff distinct).mp child, tree.at? first, there⟩
    · rintro ⟨_, below, same, entry, -, there⟩
      obtain rfl := Node.dir.inj same
      exact ⟨below, (child?_eq_some_iff distinct).mpr entry, there⟩

theorem WellFormed.entry (tree : (dir es).WellFormed) (entry : (name, node) ∈ es) :
    node.WellFormed := by
  have child := (child?_eq_some_iff (tree [] es rfl).1).mpr entry
  have there : (dir es).at? [name] = some node := by
    rw [at?_singleton]
    exact child
  exact tree.at? there

/-- The names in a tree are allowed. -/
theorem WellFormed.allowed (tree : node.WellFormed) {goal : Node}
    (there : node.at? names = some goal) : ∀ name ∈ names, Path.IsFileName name := by
  induction names generalizing node with
  | nil => simp
  | cons name names ih =>
    obtain ⟨es, below, rfl, entry, tree', there⟩ := (at?_cons_eq_some_iff tree).mp there
    intro n hn
    rcases List.mem_cons.mp hn with rfl | hn
    · exact (tree [] es rfl).2 _ entry
    · exact ih tree' there n hn

end Node

namespace Glob
open FileSystem (pathLimit)
variable {spell : String → String} {x : String × String} {name path : String}
  {names : List String} {node : Node} {es : List (String × Node)}

/-! ## Chains of names -/

theorem mem_insideEntries_iff : x ∈ insideEntries spell es ↔ ∃ name node, (name, node) ∈ es ∧
    (x = (name, spell name) ∨
      (spell name).utf8ByteSize ≤ pathLimit ∧ x ∈ inside (Path.join (spell name)) node) := by
  induction es with
  | nil => simp [insideEntries]
  | cons e es ih =>
    obtain ⟨first, node⟩ := e
    rw [insideEntries]
    have here : (x = (first, spell first) ∨ x ∈ if pathLimit < (spell first).utf8ByteSize then []
        else inside (Path.join (spell first)) node) ↔ x = (first, spell first) ∨
          (spell first).utf8ByteSize ≤ pathLimit ∧ x ∈ inside (Path.join (spell first)) node := by
      split
      · next long => simp [Nat.not_le.mpr long]
      · next short => simp [Nat.le_of_not_lt short]
    simp only [List.cons_append, List.mem_cons, List.mem_append, ← or_assoc, here, ih]
    constructor
    · rintro (found | ⟨name, below, entry, found⟩)
      · exact ⟨first, node, .inl rfl, found⟩
      · exact ⟨name, below, .inr entry, found⟩
    · rintro ⟨name, below, same | entry, found⟩
      · obtain ⟨rfl, rfl⟩ := Prod.mk.inj same
        exact .inl found
      · exact .inr ⟨name, below, entry, found⟩

/-- What is found is at a chain of names. -/
theorem exists_of_mem_inside {spell : String → String} {node : Node} (tree : node.WellFormed)
    (mem : (name, path) ∈ inside spell node) : ∃ first names, (node.at? (first :: names)).isSome ∧
      (first :: names).getLast? = some name ∧ names.foldl Path.join (spell first) = path := by
  match node with
  | .file _ =>
    rw [inside] at mem
    cases mem
  | .dir es =>
    rw [inside, mem_insideEntries_iff] at mem
    obtain ⟨first, below, entry, found⟩ := mem
    have tree' := tree.entry entry
    rcases found with here | ⟨-, deeper⟩
    · obtain ⟨rfl, rfl⟩ := Prod.mk.inj here
      have there : (Node.dir es).at? [name] = some below :=
        (Node.at?_cons_eq_some_iff tree).mpr ⟨es, below, rfl, entry, tree', rfl⟩
      exact ⟨name, [], Option.isSome_of_eq_some there, rfl, rfl⟩
    · obtain ⟨second, names, there, last, eq⟩ := exists_of_mem_inside tree' deeper
      obtain ⟨goal, there⟩ := Option.isSome_iff_exists.mp there
      have there := (Node.at?_cons_eq_some_iff tree).mpr ⟨es, below, rfl, entry, tree', there⟩
      exact ⟨first, second :: names, Option.isSome_of_eq_some there,
        by rwa [List.getLast?_cons_cons], eq⟩
termination_by sizeOf node
decreasing_by
  have smaller := List.sizeOf_lt_of_mem entry
  simp only [Node.dir.sizeOf_spec, Prod.mk.sizeOf_spec] at smaller ⊢
  omega

theorem size_le_foldl_join (names : List String) (path : String) :
    path.utf8ByteSize ≤ (names.foldl Path.join path).utf8ByteSize := by
  induction names generalizing path with
  | nil => exact Nat.le_refl _
  | cons name names ih =>
    exact (Nat.le_add_right _ _).trans ((Path.size_le_join path name).trans (ih (Path.join path name)))

/-- What is at a chain of names is found if its path is not too long. -/
theorem mem_inside (tree : node.WellFormed) {first : String}
    (there : (node.at? (first :: names)).isSome) (last : (first :: names).getLast? = some name)
    (short : (names.foldl Path.join (spell first)).utf8ByteSize ≤ pathLimit) :
    (name, names.foldl Path.join (spell first)) ∈ inside spell node := by
  rw [Option.isSome_iff_exists] at there
  obtain ⟨goal, there⟩ := there
  induction names generalizing first node spell with
  | nil =>
    obtain ⟨es, below, rfl, entry, -⟩ := (Node.at?_cons_eq_some_iff tree).mp there
    obtain rfl : first = name := Option.some.inj last
    rw [inside, mem_insideEntries_iff]
    exact ⟨first, below, entry, .inl rfl⟩
  | cons second names ih =>
    obtain ⟨es, below, rfl, entry, tree', there⟩ := (Node.at?_cons_eq_some_iff tree).mp there
    rw [inside, mem_insideEntries_iff]
    rw [List.getLast?_cons_cons] at last
    have shorter := (size_le_foldl_join (second :: names) (spell first)).trans short
    exact ⟨first, below, entry, .inr ⟨shorter, ih tree' last short there⟩⟩

end Glob

namespace FileSystem
variable {fs : FileSystem} {path name q : String} {names : List String} {way : Way} {node : Node}

theorem Stands.ne_empty (h : fs.Stands path way) : path ≠ "" :=
  (checked_of_locate h.located).2.1

theorem wellFormed_of_locate (tree : fs.root.WellFormed) (located : fs.locate path = .ok way) :
    (fs.nodeAt way).WellFormed :=
  tree.at? (leads_of_locate located).node

/-- A chain of names leads on from a directory along the path that a walk spells. -/
theorem Stands.descend (h : fs.Stands path way) (tree : (fs.nodeAt way).WellFormed)
    (there : (fs.nodeAt way).at? names = some node)
    (short : (names.foldl Glob.extend path).utf8ByteSize ≤ pathLimit) :
    ∃ below, fs.Stands (names.foldl Glob.extend path) below ∧
      below.names = way.names ++ names ∧ fs.nodeAt below = node := by
  induction names generalizing path way with
  | nil => exact ⟨way, h, by simp, Option.some.inj there⟩
  | cons name names ih =>
    have allowed := tree.allowed there
    have allowed' := allowed name List.mem_cons_self
    have spelled := Path.foldl_extend_cons h.ne_empty fun n hn => (allowed n hn).toIsEntryName
    obtain ⟨es, below, dir, entry, tree', there⟩ := (Node.at?_cons_eq_some_iff tree).mp there
    rw [dir] at tree
    have entered : fs.enter way name = .ok ((name, below) :: way) := by
      refine enter_eq_ok_iff.mpr (.down dir ?_ ((Node.child?_eq_some_iff (tree [] es rfl).1).mpr entry))
      exact ⟨allowed'.ne_empty, allowed'.ne_current, allowed'.ne_parent, allowed'.short⟩
    have shorter : (Glob.extend path name).utf8ByteSize ≤ pathLimit := by
      rw [spelled] at short
      exact (Glob.size_le_foldl_join names _).trans short
    have stands := h.extend entered allowed'.no_slash allowed'.no_zero (fun _ => allowed'.ne_empty)
      shorter
    obtain ⟨goal, stands, same, last⟩ := ih stands tree' there short
    refine ⟨goal, stands, ?_, last⟩
    rw [same, Way.names, Way.names, List.map_cons, List.reverse_cons, List.append_assoc]
    rfl

/-- Below a directory are the chains of names that the tree has there, unless their paths are too
long. -/
theorem mem_pathsBelow_iff (h : fs.Stands path way) (tree : (fs.nodeAt way).WellFormed)
    (short : q.utf8ByteSize ≤ pathLimit) : (name, q) ∈ Glob.pathsBelow fs path ↔
      ∃ names, ((fs.nodeAt way).at? names).isSome ∧ names.getLast? = some name ∧
        names.foldl Glob.extend path = q := by
  have found : Glob.pathsBelow fs path = Glob.inside (Glob.extend path) (fs.nodeAt way) := by
    rw [Glob.pathsBelow, node?_of_locate h.located]
    rfl
  have spelled {first : String} {names : List String}
      (there : ((fs.nodeAt way).at? (first :: names)).isSome) :
      (first :: names).foldl Glob.extend path = names.foldl Path.join (Glob.extend path first) := by
    obtain ⟨goal, there⟩ := Option.isSome_iff_exists.mp there
    exact Path.foldl_extend_cons h.ne_empty fun n hn => (tree.allowed there n hn).toIsEntryName
  rw [found]
  constructor
  · intro mem
    obtain ⟨first, names, there, last, eq⟩ := Glob.exists_of_mem_inside tree mem
    exact ⟨first :: names, there, last, (spelled there).trans eq⟩
  · rintro ⟨names, there, last, rfl⟩
    cases names with
    | nil => cases last
    | cons first names =>
      rw [spelled there] at short ⊢
      exact Glob.mem_inside tree there last short

end FileSystem
end Annodoc
