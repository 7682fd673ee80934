import Annodoc.FileSystem
import Annodoc.Proofs.Grammar.Token

/-!
# Files that were written

What was written at a path is what is read there. A write goes along the path to a directory and puts
the file there; the same path leads to the same place afterwards, since directories on the way
stay and keep their entries.
-/

namespace Annodoc
open Grammar (bind_eq_ok_iff)

/-! ## Nodes at chains of names -/

namespace Node
variable {name other : String} {node new root : Node} {es : List (String × Node)}

theorem child?_setEntry_self : child? name (setEntry name node es) = some node := by
  induction es with
  | nil => simp [setEntry, child?]
  | cons e es ih =>
    obtain ⟨n, old⟩ := e
    by_cases same : n = name
    · simp [setEntry, child?, same]
    · simpa [setEntry, child?, same] using ih

theorem child?_setEntry_of_ne (differ : other ≠ name) :
    child? other (setEntry name node es) = child? other es := by
  induction es with
  | nil => simp [setEntry, child?, Ne.symm differ]
  | cons e es ih =>
    obtain ⟨n, old⟩ := e
    by_cases same : n = name
    · simp [setEntry, child?, same, Ne.symm differ]
    · rw [setEntry, if_neg same]
      by_cases found : n = other
      · simp [child?, found]
      · simpa [child?, found] using ih

theorem at?_append (names more : List String) (node : Node) :
    node.at? (names ++ more) = (node.at? names).bind (at? more) := by
  induction names generalizing node with
  | nil => rfl
  | cons name names ih =>
    cases node with
    | file => rfl
    | dir es =>
      simp only [List.cons_append, at?]
      cases child? name es with
      | none => rfl
      | some node => exact ih node

theorem at?_singleton : node.at? [name] = child? name node.entries := by
  cases node with
  | file => rfl
  | dir es =>
    simp only [at?, entries]
    cases child? name es <;> rfl

theorem at?_insert_self (new : Node) (names : List String) (root : Node) :
    (insert new names root).at? names = some new := by
  induction names generalizing root with
  | nil => rfl
  | cons name names ih => rw [insert, at?, child?_setEntry_self, Option.bind_some, ih]

/-- Where no directory is replaced, every directory stays, and every entry of it. -/
theorem at?_insert_dir {names target : List String}
    (free : ∀ es, root.at? target ≠ some (.dir es)) (there : root.at? names = some (.dir es)) :
    ∃ es', (insert new target root).at? names = some (.dir es') ∧
      ∀ step, (child? step es).isSome → (child? step es').isSome := by
  induction target generalizing root names with
  | nil =>
    cases root with
    | dir es => exact absurd rfl (free es)
    | file => cases names <;> simp [at?] at there
  | cons name target ih =>
    cases names with
    | nil =>
      obtain rfl : root = .dir es := Option.some.inj there
      refine ⟨_, rfl, fun step known => ?_⟩
      by_cases same : step = name
      · rw [same, child?_setEntry_self]
        rfl
      · rw [child?_setEntry_of_ne same]
        exact known
    | cons first names =>
      cases root with
      | file => simp [at?] at there
      | dir entries =>
        rw [insert, at?]
        by_cases same : first = name
        · subst same
          simp only [at?] at free there
          cases found : child? first entries with
          | none => simp [found] at there
          | some below =>
            rw [found] at free there
            rw [child?_setEntry_self, Option.bind_some, Node.entries, found]
            exact ih free there
        · rw [child?_setEntry_of_ne same, Node.entries]
          exact ⟨es, there, fun _ known => known⟩

end Node

namespace FileSystem
variable {fs after : FileSystem} {way way' next : Way} {step : String}

/-! ## Ways in the tree -/

/-- Every node on a way is the one at the chain of names that leads to it. -/
def Leads (fs : FileSystem) (way : Way) : Prop :=
  ∀ part, part <:+ way → fs.root.at? (Way.names part) = some (fs.nodeAt part)

theorem leads_nil (fs : FileSystem) : fs.Leads [] := by
  intro part h
  rw [List.suffix_nil.mp h]
  rfl

theorem Leads.tail (h : fs.Leads way) : fs.Leads way.tail :=
  fun part suffix => h part (suffix.trans (List.tail_suffix way))

theorem Leads.node (h : fs.Leads way) : fs.root.at? way.names = some (fs.nodeAt way) :=
  h way List.suffix_rfl

theorem Leads.cons {node : Node} (h : fs.Leads way)
    (child : Node.child? step (fs.nodeAt way).entries = some node) :
    fs.Leads ((step, node) :: way) := by
  intro part suffix
  rcases List.suffix_cons_iff.mp suffix with rfl | suffix
  · have names : Way.names ((step, node) :: way) = way.names ++ [step] := by simp [Way.names]
    rw [names, Node.at?_append, h.node, Option.bind_some, Node.at?_singleton, child]
    rfl
  · exact h part suffix

/-- A step that is the name of an entry and not too long. -/
structure IsEntryStep (step : String) : Prop where
  ne_empty : step ≠ ""
  ne_current : step ≠ "."
  ne_parent : step ≠ ".."
  short : step.utf8ByteSize ≤ nameLimit

/-- The steps that a directory allows, and where they lead. -/
inductive Enters (fs : FileSystem) (way : Way) : String → Way → Prop where
  | stay {es : List (String × Node)} {step : String} (dir : fs.nodeAt way = .dir es)
      (still : step = "" ∨ step = ".") : Enters fs way step way
  | up {es : List (String × Node)} (dir : fs.nodeAt way = .dir es) : Enters fs way ".." way.tail
  | down {es : List (String × Node)} {step : String} {node : Node} (dir : fs.nodeAt way = .dir es)
      (entry : IsEntryStep step) (child : Node.child? step es = some node) :
      Enters fs way step ((step, node) :: way)

theorem enter_eq_ok_iff : fs.enter way step = .ok next ↔ fs.Enters way step next := by
  constructor
  · intro h
    rw [enter] at h
    cases dir : fs.nodeAt way with
    | file => simp [dir] at h
    | dir es =>
      simp only [dir] at h
      by_cases still : step = "" ∨ step = "."
      · rw [if_pos still] at h
        obtain rfl := Except.ok.inj h
        exact .stay dir still
      rw [if_neg still] at h
      by_cases up : step = ".."
      · rw [if_pos up] at h
        obtain rfl := Except.ok.inj h
        exact up ▸ .up dir
      rw [if_neg up] at h
      by_cases long : nameLimit < step.utf8ByteSize
      · simp [if_pos long] at h
      rw [if_neg long] at h
      rw [not_or] at still
      cases child : Node.child? step es with
      | none => simp [child] at h
      | some node =>
        rw [child] at h
        obtain rfl := Except.ok.inj h
        exact .down dir ⟨still.1, still.2, up, Nat.le_of_not_lt long⟩ child
  · rintro (⟨dir, still⟩ | dir | ⟨dir, entry, child⟩)
    · simp only [enter, dir, if_pos still]
    · simp [enter, dir]
    · simp [enter, dir, entry.ne_empty, entry.ne_current, entry.ne_parent,
        Nat.not_lt.mpr entry.short, child]

theorem Leads.enter (h : fs.Leads way) (step : fs.Enters way step next) : fs.Leads next := by
  cases step with
  | stay => exact h
  | up => exact h.tail
  | down dir _ child => exact h.cons (by rw [dir]; exact child)

theorem leads_foldlM {steps : List String} (h : fs.Leads way)
    (reached : steps.foldlM fs.enter way = .ok next) : fs.Leads next := by
  induction steps generalizing way with
  | nil =>
    obtain rfl := Except.ok.inj reached
    exact h
  | cons step steps ih =>
    obtain ⟨mid, first, reached⟩ := bind_eq_ok_iff.mp reached
    exact ih (h.enter (enter_eq_ok_iff.mp first)) reached

/-! ## Ways after a write -/

/-- Every directory stays, and keeps the names of its entries. -/
def Keeps (fs after : FileSystem) : Prop :=
  ∀ names es, fs.root.at? names = some (.dir es) → ∃ es', after.root.at? names = some (.dir es') ∧
    ∀ step, (Node.child? step es).isSome → (Node.child? step es').isSome

/-- Two ways of the same names, before and after. -/
structure SameWay (fs after : FileSystem) (way way' : Way) : Prop where
  before : fs.Leads way
  afterwards : after.Leads way'
  names : way'.map Prod.fst = way.map Prod.fst

namespace SameWay

theorem dir {es : List (String × Node)} (keeps : Keeps fs after) (h : SameWay fs after way way')
    (dir : fs.nodeAt way = .dir es) : ∃ es', after.nodeAt way' = .dir es' ∧
      ∀ step, (Node.child? step es).isSome → (Node.child? step es').isSome := by
  obtain ⟨es', there, known⟩ := keeps way.names es (by rw [h.before.node, dir])
  have same : Way.names way' = way.names := congrArg List.reverse h.names
  rw [← same, h.afterwards.node] at there
  exact ⟨es', Option.some.inj there, known⟩

/-- A step that leads somewhere leads there afterwards. -/
theorem enter (keeps : Keeps fs after) (h : SameWay fs after way way')
    (step_ : fs.Enters way step next) : ∃ next', after.Enters way' step next' ∧
      SameWay fs after next next' := by
  cases step_ with
  | stay dir still =>
    obtain ⟨es', dir', -⟩ := h.dir keeps dir
    exact ⟨way', .stay dir' still, h⟩
  | up dir =>
    obtain ⟨es', dir', -⟩ := h.dir keeps dir
    refine ⟨way'.tail, .up dir', h.before.tail, h.afterwards.tail, ?_⟩
    rw [List.map_tail, List.map_tail, h.names]
  | down dir entry child =>
    obtain ⟨es', dir', known⟩ := h.dir keeps dir
    obtain ⟨node', child'⟩ := Option.isSome_iff_exists.mp (known step (by rw [child]; rfl))
    refine ⟨(step, node') :: way', .down dir' entry child', ?_, ?_, ?_⟩
    · exact h.before.cons (by rw [dir]; exact child)
    · exact h.afterwards.cons (by rw [dir']; exact child')
    · rw [List.map_cons, List.map_cons, h.names]

theorem foldlM {steps : List String} (keeps : Keeps fs after) (h : SameWay fs after way way')
    (reached : steps.foldlM fs.enter way = .ok next) :
    ∃ next', steps.foldlM after.enter way' = .ok next' ∧ SameWay fs after next next' := by
  induction steps generalizing way way' with
  | nil =>
    obtain rfl := Except.ok.inj reached
    exact ⟨way', rfl, h⟩
  | cons step steps ih =>
    rw [List.foldlM_cons] at reached
    obtain ⟨mid, first, reached⟩ := bind_eq_ok_iff.mp reached
    obtain ⟨mid', first', same⟩ := h.enter keeps (enter_eq_ok_iff.mp first)
    obtain ⟨next', reached', last⟩ := ih same reached
    refine ⟨next', ?_, last⟩
    rw [List.foldlM_cons]
    exact bind_eq_ok_iff.mpr ⟨mid', enter_eq_ok_iff.mpr first', reached'⟩

end SameWay

/-! ## Writes -/

/-- A place where a file may be written: the way to its directory, and its name there. -/
structure Place (fs : FileSystem) (path : String) (way : Way) (name : String) : Prop where
  checked : checkPath path = .ok ()
  spelled : ∃ init, Path.steps path = init ++ [name] ∧
    (fs.start path ++ init).foldlM fs.enter [] = .ok way
  entry : IsEntryStep name
  free : ∃ es, fs.nodeAt way = .dir es ∧ (∀ below, Node.child? name es ≠ some (.dir below)) ∧
    Node.child? name es ≠ some (.file .locked)

def putAt (fs : FileSystem) (way : Way) (name : String) (data : List UInt8) : FileSystem :=
  { fs with root := Node.insert (.file (.bytes data)) (way.names ++ [name]) fs.root }

theorem dropEmpty_concat {init : List String} {name : String} (inked : name ≠ "") :
    ((init ++ [name]).reverse.dropWhile (· = "")).reverse = init ++ [name] := by
  simp [inked]

/-- A path without empty steps at its end has one that is not empty, unless it has none. -/
theorem eq_concat_of_dropEmpty {steps : List String} {name : String}
    (last : ((steps.reverse.dropWhile (· = "")).reverse).getLast? = some name)
    (all : ¬ ((steps.reverse.dropWhile (· = "")).reverse).length < steps.length) :
    name ≠ "" ∧ ∃ init, steps = init ++ [name] := by
  have whole : steps.reverse.dropWhile (· = "") = steps.reverse := by
    apply (List.dropWhile_suffix _).eq_of_length_le
    simpa using all
  have head : (steps.reverse.dropWhile (· = "")).head? = some name := by
    rw [← last, List.getLast?_reverse]
  constructor
  · have inked := List.head?_dropWhile_not (fun step => step = "") steps.reverse
    rw [head] at inked
    simpa using inked
  · rw [whole, List.head?_reverse] at head
    exact List.getLast?_eq_some_iff.mp head

/-- A write puts the file at a place, whatever the bytes are. -/
theorem write_eq_ok_iff {path : String} {data : List UInt8} : fs.write path data = .ok after ↔
    ∃ way name, fs.Place path way name ∧ after = fs.putAt way name data := by
  rw [write, bind_eq_ok_iff]
  constructor
  · rintro ⟨_, checked, h⟩
    simp only at h
    split at h
    · cases h
    next name last =>
    obtain ⟨way, reached, h⟩ := bind_eq_ok_iff.mp h
    split at h
    · cases h
    next es dir =>
    split at h
    · cases h
    next proper =>
    simp only [not_or] at proper
    split at h
    · cases h
    next short =>
    obtain ⟨inked, init, spelled⟩ := eq_concat_of_dropEmpty last proper.1
    have entry : IsEntryStep name := ⟨inked, proper.2.1, proper.2.2, Nat.le_of_not_lt short⟩
    rw [spelled, dropEmpty_concat inked, List.dropLast_concat] at reached
    have place (noDir : ∀ below, Node.child? name es ≠ some (.dir below))
        (open_ : Node.child? name es ≠ some (.file .locked)) : fs.Place path way name :=
      ⟨checked, ⟨init, spelled, reached⟩, entry, ⟨es, dir, noDir, open_⟩⟩
    split at h
    · cases h
    · cases h
    next noDir open_ =>
    exact ⟨way, name, place noDir open_, (Except.ok.inj h).symm⟩
  · rintro ⟨way, name, ⟨checked, ⟨init, spelled, reached⟩, entry, ⟨es, dir, noDir, open_⟩⟩, rfl⟩
    refine ⟨(), checked, ?_⟩
    simp only [spelled, dropEmpty_concat entry.ne_empty, List.getLast?_concat,
      List.dropLast_concat, bind_eq_ok_iff]
    refine ⟨way, reached, ?_⟩
    simp only [dir, entry.ne_current, entry.ne_parent, Nat.lt_irrefl, or_self, if_false,
      if_neg (Nat.not_lt.mpr entry.short)]
    rfl

/-- Whether a write succeeds does not depend on the bytes. -/
theorem exists_write {path : String} {data : List UInt8} (written : fs.write path data = .ok after)
    (other : List UInt8) : ∃ after', fs.write path other = .ok after' := by
  obtain ⟨way, name, place, -⟩ := write_eq_ok_iff.mp written
  exact ⟨_, write_eq_ok_iff.mpr ⟨way, name, place, rfl⟩⟩

theorem keeps_putAt {path name : String} {data : List UInt8}
    (place : fs.Place path way name) (leads : fs.Leads way) :
    fs.Keeps (fs.putAt way name data) := by
  obtain ⟨es, dir, noDir, -⟩ := place.free
  intro names es' there
  apply Node.at?_insert_dir _ there
  rw [Node.at?_append, leads.node, dir, Option.bind_some, Node.at?_singleton]
  exact noDir

/-- What was written is read at the same path. -/
theorem read_write {path : String} {data : List UInt8} (written : fs.write path data = .ok after) :
    after.read path = .ok data := by
  obtain ⟨way, name, place, rfl⟩ := write_eq_ok_iff.mp written
  obtain ⟨init, spelled, reached⟩ := place.spelled
  -- the way to the directory is the same after the write
  have leads : fs.Leads way := leads_foldlM (leads_nil fs) reached
  have first : SameWay fs (fs.putAt way name data) [] [] := ⟨leads_nil _, leads_nil _, rfl⟩
  obtain ⟨way', reached', same⟩ := first.foldlM (keeps_putAt place leads) reached
  obtain ⟨es, dir, -⟩ := place.free
  obtain ⟨es', dir', -⟩ := same.dir (keeps_putAt place leads) dir
  have child : Node.child? name es' = some (.file (.bytes data)) := by
    have put : (fs.putAt way name data).root.at? (way.names ++ [name]) =
        some (.file (.bytes data)) :=
      Node.at?_insert_self _ _ fs.root
    have names : way.names = Way.names way' := congrArg List.reverse same.names.symm
    rw [Node.at?_append, names, same.afterwards.node, dir', Option.bind_some,
      Node.at?_singleton] at put
    exact put
  have last := enter_eq_ok_iff.mpr (.down dir' place.entry child)
  have located : (fs.putAt way name data).locate path =
      .ok ((name, .file (.bytes data)) :: way') := by
    refine bind_eq_ok_iff.mpr ⟨(), place.checked, ?_⟩
    rw [spelled, ← List.append_assoc, List.foldlM_append]
    refine bind_eq_ok_iff.mpr ⟨way', reached', ?_⟩
    exact bind_eq_ok_iff.mpr ⟨_, last, rfl⟩
  exact bind_eq_ok_iff.mpr ⟨_, located, rfl⟩

end FileSystem
end Annodoc
