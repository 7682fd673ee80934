import Annodoc.Glob.Walk
import Annodoc.Proofs.FileSystem.Written
import Annodoc.Proofs.Project.PathOrder
import Mathlib.Algebra.GroupWithZero.Nat
import Mathlib.Data.List.DropRight

/-!
# Spelled paths

A walk spells the path of what it finds step by step from the path of a directory that was given. The
spelled path leads where the steps lead. It may lack given slashes and dots of the given path, so it
is never longer than that.
-/

namespace Annodoc

namespace Path
variable {path step : String} {cs part : List Char}

/-- A path without the slashes at its end. -/
def trimmed (path : String) : String := String.ofList (path.toList.rdropWhile (· = '/'))

/-- Where a walk along a path starts. -/
def walkStart (path : String) : String := if isAbsolute path then "/" else "."

/-- The steps of a walk along a path. The first step of an absolute path is where it starts. -/
def walkSteps (path : String) : List String :=
  if isAbsolute path then (steps (trimmed path)).tail else steps (trimmed path)

/-- How a walk spells the path. -/
def walked (path : String) : String := (walkSteps path).foldl Glob.extend (walkStart path)

/-! ## Steps -/

theorem mem_of_mem_splitSlash {c : Char} (mem : part ∈ splitSlash cs) (hc : c ∈ part) :
    c ∈ cs ∧ c ≠ '/' := by
  induction cs generalizing part with
  | nil => simp_all [splitSlash]
  | cons d ds ih =>
    rw [splitSlash] at mem
    split at mem
    · rcases List.mem_cons.mp mem with rfl | mem
      · cases hc
      · exact (ih mem hc).imp_left (List.mem_cons_of_mem d)
    · next noSlash =>
      obtain ⟨first, parts, split⟩ := List.exists_cons_of_ne_nil (splitSlash_ne_nil ds)
      rw [split] at mem ih
      rcases List.mem_cons.mp mem with rfl | mem
      · rcases List.mem_cons.mp hc with rfl | hc
        · exact ⟨List.mem_cons_self, noSlash⟩
        · exact (ih List.mem_cons_self hc).imp_left (List.mem_cons_of_mem d)
      · exact (ih (List.mem_cons_of_mem first mem) hc).imp_left (List.mem_cons_of_mem d)

/-- A step has characters of its path, and no slash. -/
theorem mem_of_mem_steps {c : Char} (mem : step ∈ steps path) (hc : c ∈ step.toList) :
    c ∈ path.toList ∧ c ≠ '/' := by
  obtain ⟨part, hpart, rfl⟩ := List.mem_map.mp mem
  rw [String.toList_ofList] at hc
  exact mem_of_mem_splitSlash hpart hc

theorem steps_ne_nil (path : String) : steps path ≠ [] := by
  simp [steps, splitSlash_ne_nil]

/-- The bytes of a path are those of its steps, and one for each slash between them. -/
theorem sum_steps (path : String) :
    ((steps path).map fun step => step.utf8ByteSize + 1).sum = path.utf8ByteSize + 1 := by
  have all (cs : List Char) : ((splitSlash cs).map fun part =>
      (String.ofList part).utf8ByteSize + 1).sum = (String.ofList cs).utf8ByteSize + 1 := by
    induction cs with
    | nil => rfl
    | cons c cs ih =>
      obtain ⟨first, parts, split⟩ := List.exists_cons_of_ne_nil (splitSlash_ne_nil cs)
      rw [splitSlash, String.ofList_cons, String.utf8ByteSize_append, String.utf8ByteSize_singleton]
      split
      · next slash =>
        have one : c.utf8Size = 1 := by rw [slash]; rfl
        rw [List.map_cons, List.sum_cons, ih, one]
        rfl
      · rw [split] at ih ⊢
        simp only [List.map_cons, List.sum_cons, String.ofList_cons, String.utf8ByteSize_append,
          String.utf8ByteSize_singleton] at ih ⊢
        omega
  rw [steps, List.map_map, ← String.ofList_toList (s := path), ← all, String.toList_ofList]
  rfl

/-- A path has the steps of the trimmed one, and an empty one for each slash at its end. -/
theorem exists_steps_trimmed (path : String) :
    ∃ k, steps path = steps (trimmed path) ++ List.replicate k "" := by
  have all (cs : List Char) : ∃ k,
      splitSlash cs = splitSlash (cs.rdropWhile (· = '/')) ++ List.replicate k [] := by
    induction cs using List.reverseRecOn with
    | nil => exact ⟨0, by simp⟩
    | append_singleton cs c ih =>
      rw [List.rdropWhile_concat]
      split
      · next slash =>
        obtain rfl : c = '/' := by simpa using slash
        obtain ⟨k, split⟩ := ih
        refine ⟨k + 1, ?_⟩
        rw [splitSlash_append, split, List.append_assoc, List.replicate_succ']
        rfl
      · exact ⟨0, by simp⟩
  obtain ⟨k, split⟩ := all path.toList
  refine ⟨k, ?_⟩
  rw [steps, split, List.map_append, List.map_replicate]
  simp [steps, trimmed]

theorem trimmed_size_le (path : String) : (trimmed path).utf8ByteSize ≤ path.utf8ByteSize := by
  obtain ⟨k, split⟩ := exists_steps_trimmed path
  have size := sum_steps path
  rw [split, List.map_append, List.sum_append, sum_steps] at size
  omega

/-- A path with one more step. A slash at its end takes the step behind it. -/
theorem exists_steps_join (given : path ≠ "") (noSlash : '/' ∉ step.toList) :
    ∃ init, init ≠ [] ∧ (steps path = init ∨ steps path = init ++ [""]) ∧
      steps (join path step) = init ++ [step] := by
  rw [join]
  by_cases slash : path.toList.getLast? = some '/'
  · rw [if_pos (.inr slash)]
    obtain ⟨cs, split⟩ := List.getLast?_eq_some_iff.mp slash
    obtain rfl : path = String.ofList cs ++ "/" := by
      rw [← String.toList_inj, split]
      simp
    exact ⟨steps (String.ofList cs), steps_ne_nil _, .inr (steps_append_slash _),
      steps_concat noSlash _⟩
  · rw [if_neg (by simp [given, slash])]
    exact ⟨steps path, steps_ne_nil path, .inl rfl, steps_concat noSlash path⟩

theorem isAbsolute_append_of_ne (given : path ≠ "") (more : String) :
    isAbsolute (path ++ more) = isAbsolute path := by
  obtain ⟨c, cs, h⟩ := List.exists_cons_of_ne_nil (mt String.toList_eq_nil_iff.mp given)
  simp [isAbsolute, h]

theorem isAbsolute_join (given : path ≠ "") : isAbsolute (join path step) = isAbsolute path := by
  rw [join]
  split
  · exact isAbsolute_append_of_ne given step
  · rw [isAbsolute_append_of_ne (by simp [given]), isAbsolute_append_of_ne given]

/-- The first step is empty just for an absolute path and the empty one. -/
theorem head_steps_eq_empty_iff : (steps path).head? = some "" ↔ path = "" ∨ isAbsolute path := by
  cases h : path.toList with
  | nil => simp [steps, splitSlash, String.toList_eq_nil_iff.mp h]
  | cons c cs =>
    obtain ⟨first, parts, split⟩ := List.exists_cons_of_ne_nil (splitSlash_ne_nil cs)
    have given : path ≠ "" := by rintro rfl; simp at h
    by_cases slash : c = '/' <;> simp [steps, isAbsolute, h, splitSlash, slash, split, given]

theorem ofStep?_ne_current (step : String) : Component.ofStep? step ≠ some .current := by
  rw [Component.ofStep?.eq_def]
  split <;> simp

/-- The working directory is spelled with a dot first and nothing behind it that leads on. -/
theorem isCurrent_iff : isCurrent path = true ↔
    ∃ more, steps path = "." :: more ∧ more.filterMap Component.ofStep? = [] := by
  rw [isCurrent, decide_eq_true_iff, components]
  split
  · next parts absolute =>
    have head : (steps path).head? = some "" := by
      rw [head_steps_eq_empty_iff]
      exact .inr absolute
    constructor
    · rintro ⟨⟩
    · rintro ⟨more, same, -⟩
      rw [same] at head
      simp at head
  · next parts _ split =>
    simp [split]
  · next other =>
    constructor
    · intro same
      have mem : Component.current ∈ (steps path).filterMap Component.ofStep? := by simp [same]
      obtain ⟨step, -, eq⟩ := List.mem_filterMap.mp mem
      exact absurd eq (ofStep?_ne_current step)
    · rintro ⟨more, same, -⟩
      exact (other more same).elim

theorem isCurrent_of_no_slash (noSlash : '/' ∉ step.toList) (current : isCurrent step = true) :
    step = "." := by
  rw [isCurrent_iff, steps_of_no_slash noSlash] at current
  obtain ⟨more, split, -⟩ := current
  exact (List.cons.inj split).1

theorem isCurrent_of_join (given : path ≠ "") (noSlash : '/' ∉ step.toList)
    (current : isCurrent (join path step) = true) : isCurrent path = true := by
  rw [isCurrent_iff] at current ⊢
  obtain ⟨more, split, nowhere⟩ := current
  obtain ⟨init, nonempty, here, joined⟩ := exists_steps_join given noSlash
  obtain ⟨first, rest, rfl⟩ := List.exists_cons_of_ne_nil nonempty
  rw [joined, List.cons_append] at split
  obtain ⟨rfl, rfl⟩ := List.cons.inj split
  rw [List.filterMap_append, List.append_eq_nil_iff] at nowhere
  have empty : [""].filterMap Component.ofStep? = [] := rfl
  rcases here with here | here
  · exact ⟨rest, here, nowhere.1⟩
  · exact ⟨rest ++ [""], here, by rw [List.filterMap_append, nowhere.1, empty]; rfl⟩

theorem join_ne_dot (given : path ≠ "") (noSlash : '/' ∉ step.toList) : join path step ≠ "." := by
  intro dot
  obtain ⟨init, nonempty, -, joined⟩ := exists_steps_join given noSlash
  have one := congrArg List.length joined
  rw [dot, steps_of_no_slash (by decide), List.length_append, List.length_singleton,
    List.length_singleton] at one
  exact nonempty (List.length_eq_zero_iff.mp (by omega))

/-! ## Lengths -/

theorem size_join_le (path step : String) :
    (join path step).utf8ByteSize ≤ path.utf8ByteSize + step.utf8ByteSize + 1 := by
  have slash : "/".utf8ByteSize = 1 := rfl
  rw [join]
  split <;> simp only [String.utf8ByteSize_append] <;> omega

theorem size_le_join (path step : String) :
    path.utf8ByteSize + step.utf8ByteSize ≤ (join path step).utf8ByteSize := by
  rw [join]
  split <;> simp only [String.utf8ByteSize_append] <;> omega

/-- The bytes of its text that a walk has used up where it spells a path. Nothing is used for the
working directory, and a slash behind every other path but the root. -/
def spent (path : String) : Nat :=
  if path = "." then 0 else if path = "/" then 1 else path.utf8ByteSize + 1

theorem spent_le (path : String) : spent path ≤ path.utf8ByteSize + 1 := by
  unfold spent
  split_ifs <;> omega

theorem spent_extend_le (dot : isCurrent path = true → path = ".") (step : String) :
    spent (Glob.extend path step) ≤ spent path + (step.utf8ByteSize + 1) := by
  by_cases here : path = "."
  · subst here
    have current : isCurrent "." = true := by decide
    rw [Glob.extend, if_pos current]
    exact (spent_le step).trans (Nat.le_add_left _ _)
  rw [Glob.extend, if_neg fun current => here (dot current)]
  by_cases root : path = "/"
  · subst root
    have used : spent "/" = 1 := by decide
    have joined : join "/" step = "/" ++ step := by rw [join, if_pos (by decide)]
    have slash : "/".utf8ByteSize = 1 := rfl
    have size := spent_le (join "/" step)
    rw [joined, String.utf8ByteSize_append] at size
    rw [used, joined]
    omega
  · have used : spent path = path.utf8ByteSize + 1 := by rw [spent, if_neg here, if_neg root]
    have size := spent_le (join path step)
    have longer := size_join_le path step
    omega

end Path

namespace FileSystem
open Grammar (bind_eq_ok_iff)
open Annodoc.Path
variable {fs : FileSystem} {path step : String} {steps : List String} {way next goal : Way}

theorem size_le_of_spent (h : spent path ≤ pathLimit + 1) : path.utf8ByteSize ≤ pathLimit := by
  rw [spent] at h
  split_ifs at h with dot root
  · rw [dot]; decide
  · rw [root]; decide
  · omega

theorem checkPath_eq_ok_iff : checkPath path = .ok () ↔
    '\x00' ∉ path.toList ∧ path ≠ "" ∧ path.utf8ByteSize ≤ pathLimit := by
  rw [checkPath]
  split_ifs <;> simp_all

theorem locate_eq_ok_iff : fs.locate path = .ok way ↔ checkPath path = .ok () ∧
    ∃ first, (fs.start path).foldlM fs.enter [] = .ok first ∧
      (Path.steps path).foldlM fs.enter first = .ok way := by
  rw [locate, bind_eq_ok_iff, List.foldlM_append]
  simp only [bind_eq_ok_iff]
  constructor
  · rintro ⟨_, checked, h⟩
    exact ⟨checked, h⟩
  · rintro ⟨checked, h⟩
    exact ⟨(), checked, h⟩

theorem start_of_relative (relative : isAbsolute path = false) : fs.start path = fs.home := by
  rw [start, relative]
  rfl

theorem start_of_absolute (absolute : isAbsolute path = true) : fs.start path = [] := by
  rw [start, absolute]
  rfl

theorem checked_of_locate (located : fs.locate path = .ok way) :
    '\x00' ∉ path.toList ∧ path ≠ "" ∧ path.utf8ByteSize ≤ pathLimit := by
  rw [locate_eq_ok_iff, checkPath_eq_ok_iff] at located
  exact located.1

/-- An empty step and a dot stay in their directory. -/
theorem enter_still (still : step = "" ∨ step = ".") (entered : fs.enter way step = .ok next) :
    next = way := by
  cases enter_eq_ok_iff.mp entered with
  | stay => rfl
  | up => simp at still
  | down _ entry => exact absurd still (by simp [entry.ne_empty, entry.ne_current])

/-- Only a directory has steps. -/
theorem exists_dir_of_enter (entered : fs.enter way step = .ok next) :
    ∃ es, fs.nodeAt way = .dir es := by
  cases enter_eq_ok_iff.mp entered with
  | stay dir => exact ⟨_, dir⟩
  | up dir => exact ⟨_, dir⟩
  | down dir => exact ⟨_, dir⟩

theorem foldlM_replicate_empty {k : Nat}
    (entered : (List.replicate k "").foldlM fs.enter way = .ok next) : next = way := by
  induction k generalizing way with
  | zero => exact (Except.ok.inj entered).symm
  | succ k ih =>
    obtain ⟨mid, first, entered⟩ := bind_eq_ok_iff.mp entered
    exact (ih entered).trans (enter_still (.inl rfl) first)

theorem leads_of_locate (located : fs.locate path = .ok way) : fs.Leads way := by
  obtain ⟨-, first, started, led⟩ := locate_eq_ok_iff.mp located
  exact leads_foldlM (leads_foldlM (leads_nil fs) started) led

/-! ## What is at a path -/

theorem node?_of_locate (located : fs.locate path = .ok way) :
    fs.node? path = some (fs.nodeAt way) := by
  rw [node?, located]
  rfl

theorem exists_locate_of_node? {node : Node} (there : fs.node? path = some node) :
    ∃ way, fs.locate path = .ok way ∧ fs.nodeAt way = node := by
  cases located : fs.locate path with
  | error e =>
    rw [node?, located] at there
    cases there
  | ok way => exact ⟨way, rfl, Option.some.inj ((node?_of_locate located).symm.trans there)⟩

theorem exists_locate_of_isDir (dir : fs.isDir path = true) :
    ∃ way es, fs.locate path = .ok way ∧ fs.nodeAt way = .dir es := by
  rw [isDir] at dir
  split at dir
  · next es there =>
    obtain ⟨way, located, node⟩ := exists_locate_of_node? there
    exact ⟨way, es, located, node⟩
  · cases dir

theorem exists_locate_of_isFile (file : fs.isFile path = true) :
    ∃ way content, fs.locate path = .ok way ∧ fs.nodeAt way = .file content := by
  rw [isFile] at file
  split at file
  · next content there =>
    obtain ⟨way, located, node⟩ := exists_locate_of_node? there
    exact ⟨way, content, located, node⟩
  · cases file

theorem isDir_of_locate {es : List (String × Node)} (located : fs.locate path = .ok way)
    (dir : fs.nodeAt way = .dir es) : fs.isDir path = true := by
  rw [isDir, node?_of_locate located, dir]

theorem isFile_of_locate {content : Content} (located : fs.locate path = .ok way)
    (file : fs.nodeAt way = .file content) : fs.isFile path = true := by
  rw [isFile, node?_of_locate located, file]

theorem isThere_of_locate (located : fs.locate path = .ok way) : fs.isThere path = true := by
  rw [isThere, node?_of_locate located]
  rfl

/-! ## Where spelled paths lead -/

/-- A path that leads somewhere. If that is the working directory by its spelling, it is one dot. -/
structure Stands (fs : FileSystem) (path : String) (way : Way) : Prop where
  located : fs.locate path = .ok way
  dot : isCurrent path = true → path = "."

/-- A step takes the path that is spelled to where it leads. -/
theorem Stands.extend (h : fs.Stands path way) (entered : fs.enter way step = .ok next)
    (noSlash : '/' ∉ step.toList) (noZero : '\x00' ∉ step.toList)
    (inked : path = "." → step ≠ "") (short : (Glob.extend path step).utf8ByteSize ≤ pathLimit) :
    fs.Stands (Glob.extend path step) next := by
  obtain ⟨checked, first, started, led⟩ := locate_eq_ok_iff.mp h.located
  obtain ⟨noZero', given, -⟩ := checkPath_eq_ok_iff.mp checked
  by_cases here : path = "."
  · subst here
    have current : isCurrent "." = true := by decide
    rw [Glob.extend, if_pos current] at short ⊢
    refine ⟨locate_eq_ok_iff.mpr ⟨checkPath_eq_ok_iff.mpr ⟨noZero, inked rfl, short⟩, first, ?_, ?_⟩,
      isCurrent_of_no_slash noSlash⟩
    · rw [start_of_relative (isAbsolute_of_no_slash (by decide))] at started
      rw [start_of_relative (isAbsolute_of_no_slash noSlash), started]
    · rw [steps_of_no_slash (by decide)] at led
      obtain ⟨mid, dotted, last⟩ := bind_eq_ok_iff.mp led
      obtain rfl := Except.ok.inj last
      obtain rfl := enter_still (.inr rfl) dotted
      rw [steps_of_no_slash noSlash]
      exact bind_eq_ok_iff.mpr ⟨next, entered, rfl⟩
  · have away : ¬ isCurrent path = true := fun current => here (h.dot current)
    rw [Glob.extend, if_neg away] at short ⊢
    obtain ⟨init, -, split, joined⟩ := exists_steps_join given noSlash
    have reached : init.foldlM fs.enter first = .ok way := by
      rcases split with split | split
      · rw [split] at led
        exact led
      · rw [split, List.foldlM_append] at led
        obtain ⟨mid, led, last⟩ := bind_eq_ok_iff.mp led
        rw [foldlM_replicate_empty (k := 1) last]
        exact led
    have checked' : checkPath (join path step) = .ok () := by
      refine checkPath_eq_ok_iff.mpr ⟨?_, ?_, short⟩
      · rw [join]
        split <;> simp [noZero, noZero']
      · rw [join]
        split <;> simp [given]
    refine ⟨locate_eq_ok_iff.mpr ⟨checked', first, ?_, ?_⟩,
      fun current => absurd (isCurrent_of_join given noSlash current) away⟩
    · have same : fs.start (join path step) = fs.start path := by
        rw [start, start, isAbsolute_join given]
      rw [same]
      exact started
    · rw [joined, List.foldlM_append]
      exact bind_eq_ok_iff.mpr ⟨way, reached, bind_eq_ok_iff.mpr ⟨next, entered, rfl⟩⟩

/-- A walk that has come to a path, with steps that lead on to a goal. What it has used up and the
steps fit the limit, and no empty step comes before it has left the working directory. -/
structure Walks (fs : FileSystem) (path : String) (way : Way) (steps : List String) (goal : Way) :
    Prop extends Stands fs path way where
  onward : steps.foldlM fs.enter way = .ok goal
  fits : spent path + (steps.map fun step => step.utf8ByteSize + 1).sum ≤ pathLimit + 1
  noGap : path = "." → (steps.dropWhile (· = ".")).head? ≠ some ""
  plain : ∀ step ∈ steps, '/' ∉ step.toList ∧ '\x00' ∉ step.toList

/-- Each step goes on with the walk. -/
theorem Walks.advance (h : fs.Walks path way (step :: steps) goal) :
    ∃ next, fs.enter way step = .ok next ∧ fs.Walks (Glob.extend path step) next steps goal := by
  obtain ⟨next, entered, onward⟩ := bind_eq_ok_iff.mp h.onward
  obtain ⟨noSlash, noZero⟩ := h.plain step List.mem_cons_self
  obtain ⟨-, given, -⟩ := checked_of_locate h.located
  have used := spent_extend_le h.dot step
  have fits := h.fits
  rw [List.map_cons, List.sum_cons] at fits
  have inked : path = "." → step ≠ "" := by
    rintro here rfl
    exact h.noGap here (by simp)
  have stands : fs.Stands (Glob.extend path step) next :=
    h.toStands.extend entered noSlash noZero inked (size_le_of_spent (by omega))
  refine ⟨next, entered, stands, onward, by omega, fun dot => ?_,
    fun step mem => h.plain step (List.mem_cons_of_mem _ mem)⟩
  -- only a dot stays in the working directory
  rw [Glob.extend] at dot
  split at dot
  · next current =>
    have noGap := h.noGap (h.dot current)
    rwa [dot, List.dropWhile_cons_of_pos (by simp)] at noGap
  · exact absurd dot (join_ne_dot given noSlash)

/-- A walk comes to the path that its steps spell. -/
theorem Walks.foldl (h : fs.Walks path way steps goal) :
    fs.Stands (steps.foldl Glob.extend path) goal := by
  induction steps generalizing path way with
  | nil =>
    obtain rfl := Except.ok.inj h.onward
    exact h.toStands
  | cons step steps ih =>
    obtain ⟨next, -, h⟩ := h.advance
    exact ih h

theorem stands_dot {first : Way} {es : List (String × Node)}
    (started : fs.home.foldlM fs.enter [] = .ok first) (dir : fs.nodeAt first = .dir es) :
    fs.Stands "." first := by
  refine ⟨locate_eq_ok_iff.mpr ⟨by decide, first, started, ?_⟩, fun _ => rfl⟩
  rw [steps_of_no_slash (by decide)]
  exact bind_eq_ok_iff.mpr ⟨first, enter_eq_ok_iff.mpr (.stay dir (.inr rfl)), rfl⟩

theorem stands_root {es : List (String × Node)} (dir : fs.root = .dir es) : fs.Stands "/" [] := by
  have still : fs.enter [] "" = .ok [] := enter_eq_ok_iff.mpr (.stay dir (.inl rfl))
  have split : Path.steps "/" = ["", ""] := by decide
  refine ⟨locate_eq_ok_iff.mpr ⟨by decide, [], rfl, ?_⟩, fun current => by revert current; decide⟩
  rw [split]
  exact bind_eq_ok_iff.mpr ⟨[], still, bind_eq_ok_iff.mpr ⟨[], still, rfl⟩⟩

/-- A walk along a path leads where the path leads, unless an empty step follows leading dots. -/
theorem exists_walks (located : fs.locate path = .ok way) (noGap : isAbsolute path = false →
    ((walkSteps path).dropWhile (· = ".")).head? ≠ some "") :
    ∃ first, fs.Walks (walkStart path) first (walkSteps path) way := by
  obtain ⟨checked, first, started, led⟩ := locate_eq_ok_iff.mp located
  obtain ⟨noZero, -, short⟩ := checkPath_eq_ok_iff.mp checked
  have fits := (sum_steps (trimmed path)).trans_le
    (Nat.add_le_add_right ((trimmed_size_le path).trans short) 1)
  have plain : ∀ step ∈ Path.steps (trimmed path), '/' ∉ step.toList ∧ '\x00' ∉ step.toList := by
    refine fun step mem => ⟨fun slash => (mem_of_mem_steps mem slash).2 rfl, fun zero => noZero ?_⟩
    have kept := (mem_of_mem_steps mem zero).1
    rw [trimmed, String.toList_ofList] at kept
    exact (List.rdropWhile_prefix _ _).subset kept
  -- the slashes at the end lead nowhere else
  obtain ⟨k, split⟩ := exists_steps_trimmed path
  obtain ⟨leading, more, shape⟩ := List.exists_cons_of_ne_nil (steps_ne_nil (trimmed path))
  have onward : (Path.steps (trimmed path)).foldlM fs.enter first = .ok way := by
    rw [split, List.foldlM_append] at led
    obtain ⟨mid, led, last⟩ := bind_eq_ok_iff.mp led
    rw [foldlM_replicate_empty last]
    exact led
  rw [shape] at onward plain fits
  obtain ⟨mid, entered, behind⟩ := bind_eq_ok_iff.mp onward
  obtain ⟨es, dir⟩ := exists_dir_of_enter entered
  cases absolute : isAbsolute path with
  | false =>
    have startsAt : walkStart path = "." := by rw [walkStart, absolute]; rfl
    have walks : walkSteps path = leading :: more := by rw [walkSteps, absolute, ← shape]; rfl
    rw [start_of_relative absolute] at started
    rw [walks] at noGap ⊢
    rw [startsAt]
    exact ⟨first, stands_dot started dir, onward, by simpa [spent] using fits,
      fun _ => noGap absolute, plain⟩
  | true =>
    have startsAt : walkStart path = "/" := by rw [walkStart, absolute]; rfl
    have walks : walkSteps path = more := by rw [walkSteps, absolute, shape]; rfl
    have empty : leading = "" := by
      have head := head_steps_eq_empty_iff.mpr (.inr absolute)
      rw [split, shape] at head
      exact Option.some.inj head
    subst empty
    rw [start_of_absolute absolute] at started
    obtain rfl := Except.ok.inj started
    obtain rfl := enter_still (.inl rfl) entered
    rw [startsAt, walks]
    have used : spent "/" = 1 := by decide
    have slash : "".utf8ByteSize = 0 := rfl
    rw [List.map_cons, List.sum_cons, slash] at fits
    exact ⟨[], stands_root dir, behind, by omega, fun dot => absurd dot (by decide),
      fun step mem => plain step (List.mem_cons_of_mem _ mem)⟩

end FileSystem
end Annodoc
