import Annodoc.Project
import Annodoc.Proofs.Catalog.Lookup
import Annodoc.Proofs.Grammar.Token
import Mathlib.Data.List.Forall2

/-!
# What is loaded

The files of a project come in the order of the components of their paths, and no two of them have
the same components. So none takes the place of another: the catalog holds every file that was read,
each under its path.
-/

namespace Annodoc
open Grammar (bind_eq_ok_iff bind_eq_error_iff mapError_eq_ok_iff)

/-! ## Lists of attempts -/

theorem mapM_eq_ok_iff {ε α β : Type} {f : α → Except ε β} {xs : List α} {ys : List β} :
    xs.mapM f = .ok ys ↔ List.Forall₂ (fun x y => f x = .ok y) xs ys := by
  induction xs generalizing ys with
  | nil => cases ys <;> simp [pure, Except.pure]
  | cons x xs ih =>
    simp only [List.mapM_cons, bind_eq_ok_iff, List.forall₂_cons_left_iff, ih, pure, Except.pure,
      Except.ok.injEq]
    constructor
    · rintro ⟨y, hy, ys, hys, rfl⟩
      exact ⟨y, ys, hy, hys, rfl⟩
    · rintro ⟨y, ys, hy, hys, rfl⟩
      exact ⟨y, hy, ys, hys, rfl⟩

/-- A list of attempts fails as one of them does. -/
theorem exists_of_mapM_eq_error {ε α β : Type} {f : α → Except ε β} {xs : List α} {e : ε}
    (h : xs.mapM f = .error e) : ∃ x ∈ xs, f x = .error e := by
  induction xs with
  | nil => simp [pure, Except.pure] at h
  | cons x xs ih =>
    rw [List.mapM_cons, bind_eq_error_iff] at h
    rcases h with h | ⟨y, -, h⟩
    · exact ⟨x, List.mem_cons_self, h⟩
    · rcases bind_eq_error_iff.mp h with h | ⟨ys, -, h⟩
      · obtain ⟨x, mem, failed⟩ := ih h
        exact ⟨x, List.mem_cons_of_mem _ mem, failed⟩
      · simp [pure, Except.pure] at h

/-! ## Paths in the order of their components -/

namespace Path

instance : Std.LawfulEqCmp compareComponents :=
  inferInstanceAs (Std.LawfulEqCmp (List.compareLex Component.compare))

/-- The first path comes before the second in the order of components. -/
def Precedes (p q : String) : Prop := compare p q = .lt

instance (p q : String) : Decidable (Precedes p q) := inferInstanceAs (Decidable (_ = _))

theorem Precedes.irrefl (p : String) : ¬ Precedes p p := by
  have same : compare p p = .eq := Std.ReflCmp.compare_self
  simp [Precedes, same]

theorem Precedes.trans {p q r : String} (pq : Precedes p q) (qr : Precedes q r) : Precedes p r :=
  Std.TransCmp.lt_trans pq qr

theorem Precedes.ne {p q : String} (h : Precedes p q) : p ≠ q := by
  rintro rfl
  exact irrefl p h

namespace Split
variable {p q r : Split}

theorem isLE_or_isLE (p q : Split) : ((p.compare q).isLE || (q.compare p).isLE) = true := by
  have swap : q.compare p = (p.compare q).swap :=
    Std.OrientedCmp.eq_swap (a := q.components) (b := p.components)
  rw [swap]
  cases p.compare q <;> rfl

theorem isLE_trans (pq : (p.compare q).isLE) (qr : (q.compare r).isLE) : (p.compare r).isLE :=
  Std.TransCmp.isLE_trans (a := p.components) (b := q.components) (c := r.components) pq qr

theorem components_eq_of_compare (h : p.compare q = .eq) : p.components = q.components :=
  Std.LawfulEqCmp.eq_of_compare (a := p.components) (b := q.components) h

theorem components_eq_of_isLE (pq : (p.compare q).isLE) (qp : (q.compare p).isLE) :
    p.components = q.components :=
  components_eq_of_compare
    (Std.OrientedCmp.isLE_antisymm (a := p.components) (b := q.components) pq qp)

theorem precedes_of_isLE (pq : (p.compare q).isLE) (differ : p.components ≠ q.components) :
    Precedes p.path q.path := by
  rw [Precedes, ← Split.compare_eq]
  cases h : p.compare q with
  | lt => rfl
  | eq => exact absurd (components_eq_of_compare h) differ
  | gt => simp [h] at pq

end Split
end Path

/-! ## The selection -/

namespace Selection
open Annodoc.Path

theorem dropRepeats_sublist (paths : List Path.Split) : (dropRepeats paths).Sublist paths := by
  fun_induction dropRepeats paths with
  | case1 => exact List.Sublist.slnil
  | case2 path rest ih => exact (ih.trans (List.dropWhile_sublist _)).cons_cons path

/-- Among sorted paths, those with the same components follow each other. -/
theorem pairwise_dropRepeats {paths : List Path.Split}
    (sorted : paths.Pairwise fun p q => (p.compare q).isLE) :
    (dropRepeats paths).Pairwise fun p q => Precedes p.path q.path := by
  fun_induction dropRepeats paths with
  | case1 => exact .nil
  | case2 path rest ih =>
    rw [List.pairwise_cons] at sorted
    have kept := List.dropWhile_suffix (fun p : Path.Split => p.components = path.components)
      (l := rest)
    refine List.pairwise_cons.mpr ⟨?_, ih (sorted.2.sublist kept.sublist)⟩
    intro q hq
    have hq := (dropRepeats_sublist _).mem hq
    refine Split.precedes_of_isLE (sorted.1 q (kept.mem hq)) fun same => ?_
    -- the first path that is kept lies between the two, and differs from `path`
    obtain ⟨first, others, split⟩ := List.exists_cons_of_ne_nil (List.ne_nil_of_mem hq)
    have differs : first.components ≠ path.components := by
      have h := List.head?_dropWhile_not (fun p : Path.Split => p.components = path.components) rest
      simpa [split] using h
    rw [split] at hq kept
    have above : (path.compare first).isLE := sorted.1 first (kept.mem List.mem_cons_self)
    have below : (first.compare q).isLE := by
      rcases List.mem_cons.mp hq with rfl | mem
      · exact Std.ReflCmp.isLE_rfl (a := q.components)
      · exact (List.pairwise_cons.mp (sorted.2.sublist kept.sublist)).1 q mem
    have back : (first.compare path).isLE := by
      rw [Split.compare, same]
      exact below
    exact differs (Split.components_eq_of_isLE back above)

variable {fs : FileSystem} {options : SearchOptions} {paths : List String} {s : Selection}

theorem pairwise_precedes (selected : ofPaths fs options paths = .ok s) :
    s.files.Pairwise Precedes := by
  obtain ⟨selections, -, h⟩ := bind_eq_ok_iff.mp selected
  obtain rfl := Except.ok.inj h
  rw [List.pairwise_map]
  apply pairwise_dropRepeats
  apply List.pairwise_mergeSort
  · intro p q r
    exact Split.isLE_trans
  · exact Split.isLE_or_isLE

theorem dropRepeats_of_pairwise {paths : List Path.Split}
    (ordered : paths.Pairwise fun p q => Precedes p.path q.path) : dropRepeats paths = paths := by
  induction paths with
  | nil => rw [dropRepeats]
  | cons path rest ih =>
    rw [List.pairwise_cons] at ordered
    have kept : rest.dropWhile (fun p => p.components = path.components) = rest := by
      cases rest with
      | nil => rfl
      | cons next rest =>
        have later := ordered.1 next List.mem_cons_self
        rw [List.dropWhile_cons_of_neg]
        intro same
        have equal : compareComponents path.components path.components = .eq :=
          Std.ReflCmp.compare_self
        rw [Precedes, Path.compare, ← path.components_eq, ← next.components_eq,
          of_decide_eq_true same, equal] at later
        cases later
    rw [dropRepeats, kept, ih ordered.2]

/-- Files that are given in order stand for themselves. -/
theorem ofPaths_of_files (there : ∀ path ∈ paths, fs.isFile path)
    (ordered : paths.Pairwise Precedes) : ofPaths fs options paths = .ok ⟨paths, []⟩ := by
  have each : paths.mapM (ofPath fs options) = .ok (paths.map fun path => ⟨[path], []⟩) := by
    rw [mapM_eq_ok_iff, List.forall₂_map_right_iff, List.forall₂_same]
    intro path mem
    rw [ofPath, if_pos (there path mem)]
  have found : (paths.map fun path => (⟨[path], []⟩ : Selection)).flatMap files = paths := by
    simp [List.flatMap_map]
  have quiet : (paths.map fun path => (⟨[path], []⟩ : Selection)).flatMap events = [] := by
    simp [List.flatMap_map]
  have split : (paths.map Path.split).Pairwise fun p q => Precedes p.path q.path :=
    List.pairwise_map.mpr ordered
  have sorted : (paths.map Path.split).mergeSort (fun p q => (p.compare q).isLE) =
      paths.map Path.split := by
    apply List.mergeSort_of_pairwise
    apply split.imp
    intro p q h
    rw [Split.compare_eq, h]
    rfl
  rw [ofPaths, each]
  simp only [bind, Except.bind, found, quiet, sorted, dropRepeats_of_pairwise split, List.map_map]
  simp [Function.comp_def, Path.split]

end Selection

/-! ## The catalog of files with different paths -/

namespace Catalog

theorem putFile_perm {path : String} {file : FileDoc} {files : List (String × FileDoc)}
    (new : path ∉ files.map Prod.fst) : (putFile path file files).Perm ((path, file) :: files) := by
  induction files with
  | nil => exact .rfl
  | cons x files ih =>
    obtain ⟨p, f⟩ := x
    simp only [List.map_cons, List.mem_cons, not_or] at new
    rw [putFile, if_neg new.1]
    split
    · exact .rfl
    · exact ((ih new.2).cons _).trans (.swap _ _ _)

theorem ofFiles_perm {files : List (String × FileDoc)} (differ : (files.map Prod.fst).Nodup) :
    (ofFiles files).files.Perm files := by
  induction files using List.reverseRecOn with
  | nil => exact .rfl
  | append_singleton files x ih =>
    rw [List.map_append, List.nodup_append] at differ
    have known := ih differ.1
    have new : x.1 ∉ (ofFiles files).files.map Prod.fst := by
      rw [(known.map Prod.fst).mem_iff]
      intro mem
      exact differ.2.2 x.1 mem x.1 (by simp) rfl
    rw [ofFiles_concat]
    exact (putFile_perm new).trans ((known.cons x).trans (List.perm_append_singleton x files).symm)

end Catalog

/-! ## Projects -/

theorem FileSystem.isFile_of_read {fs : FileSystem} {path : String} {bytes : List UInt8}
    (read : fs.read path = .ok bytes) : fs.isFile path := by
  obtain ⟨way, found, at_⟩ := bind_eq_ok_iff.mp read
  have there : fs.node? path = some (fs.nodeAt way) := by rw [node?, found]; rfl
  rw [isFile, there]
  cases node : fs.nodeAt way with
  | file => rfl
  | dir => simp [node] at at_

namespace Reading

theorem ofPath_eq_ok_iff {fs : FileSystem} {path : String} {r : Reading} :
    ofPath fs path = .ok r ↔ ∃ bytes, fs.read path = .ok bytes ∧ r = ofBytes bytes := by
  rw [ofPath]
  cases fs.read path <;> simp [eq_comm]

end Reading

namespace Project

/-- The files with what they document, in the order in which they are added to the catalog. -/
def sources (p : Project) : List (String × FileDoc) := p.files.map fun (path, r) => (path, r.doc)

variable {fs : FileSystem} {options : SearchOptions} {paths : List String} {p : Project}

theorem catalog_eq_ofFiles (p : Project) : p.catalog = .ofFiles p.sources := rfl

/-- The path of a file, with what was read there. -/
def ReadAt (fs : FileSystem) (path : String) (x : String × Reading) : Prop :=
  x.1 = path ∧ Reading.ofPath fs path = .ok x.2

/-- A project has the selected files, each with what was read at its path. -/
theorem load_eq_ok_iff : load fs options paths = .ok p ↔
    ∃ s, Selection.ofPaths fs options paths = .ok s ∧ p.selection = s.events ∧
      List.Forall₂ (ReadAt fs) s.files p.files := by
  have one (path : String) (x : String × Reading) :
      (do let r ← Reading.ofPath fs path; .ok (path, r)) = .ok x ↔ ReadAt fs path x := by
    rw [bind_eq_ok_iff]
    constructor
    · rintro ⟨r, read, h⟩
      obtain rfl := Except.ok.inj h
      exact ⟨rfl, read⟩
    · rintro ⟨rfl, read⟩
      exact ⟨x.2, read, rfl⟩
  simp only [load, bind_eq_ok_iff, mapM_eq_ok_iff, one]
  constructor
  · rintro ⟨s, selected, files, read, h⟩
    obtain rfl := Except.ok.inj h
    exact ⟨s, selected, rfl, read⟩
  · rintro ⟨s, selected, events, read⟩
    refine ⟨s, selected, p.files, read, ?_⟩
    rw [← events]

theorem map_fst_sources (p : Project) : p.sources.map Prod.fst = p.files.map Prod.fst := by
  simp [sources]

theorem map_fst_files_of_read {selected : List String} {files : List (String × Reading)}
    (read : List.Forall₂ (ReadAt fs) selected files) : files.map Prod.fst = selected := by
  induction read with
  | nil => rfl
  | cons h _ ih => rw [List.map_cons, h.1, ih]

/-- What was read are the bytes of the selected files. -/
theorem exists_contents_of_read {selected : List String} {files : List (String × Reading)}
    (read : List.Forall₂ (ReadAt fs) selected files) :
    ∃ contents, List.Forall₂ (fun path bytes => fs.read path = .ok bytes) selected contents ∧
      files.map Prod.snd = contents.map Reading.ofBytes := by
  induction read with
  | nil => exact ⟨[], .nil, rfl⟩
  | cons h _ ih =>
    obtain ⟨contents, read, same⟩ := ih
    obtain ⟨bytes, one, reading⟩ := Reading.ofPath_eq_ok_iff.mp h.2
    exact ⟨bytes :: contents, .cons one read, by rw [List.map_cons, List.map_cons, reading, same]⟩

theorem pairwise_sources (loaded : load fs options paths = .ok p) :
    p.sources.Pairwise fun x y => Path.Precedes x.1 y.1 := by
  obtain ⟨s, selected, -, read⟩ := load_eq_ok_iff.mp loaded
  rw [← List.pairwise_map (f := Prod.fst), map_fst_sources, map_fst_files_of_read read]
  exact Selection.pairwise_precedes selected

/-- The catalog holds the files that were read, and no others. -/
theorem catalog_files_perm (loaded : load fs options paths = .ok p) :
    p.catalog.files.Perm p.sources := by
  apply Catalog.ofFiles_perm
  rw [List.Nodup, List.pairwise_map]
  exact (pairwise_sources loaded).imp Path.Precedes.ne

/-- Files that are given in order, and can be read, make a project. -/
theorem load_of_files {contents : List (String × List UInt8)}
    (read : ∀ x ∈ contents, fs.read x.1 = .ok x.2)
    (ordered : (contents.map Prod.fst).Pairwise Path.Precedes) :
    load fs options (contents.map Prod.fst) =
      .ok ⟨contents.map fun (path, bytes) => (path, .ofBytes bytes), []⟩ := by
  have there : ∀ path ∈ contents.map Prod.fst, fs.isFile path := by
    intro path mem
    obtain ⟨x, hx, rfl⟩ := List.mem_map.mp mem
    exact FileSystem.isFile_of_read (read x hx)
  refine load_eq_ok_iff.mpr ⟨_, Selection.ofPaths_of_files there ordered, rfl, ?_⟩
  rw [List.forall₂_map_left_iff, List.forall₂_map_right_iff, List.forall₂_same]
  intro x hx
  exact ⟨rfl, Reading.ofPath_eq_ok_iff.mpr ⟨x.2, read x hx, rfl⟩⟩

end Project
end Annodoc
