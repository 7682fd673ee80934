import Annodoc.Proofs.Comment.TagLines
import Annodoc.Proofs.Project.Loading

/-!
# Listed paths

What a list of paths selects does not depend on how the paths are listed. Each of them contributes
files of its own, whatever stands beside it; sorting brings together the paths that have the same
components, and one of them stays.
-/

namespace Annodoc

/-- The pattern that a path stands for if it is no file. -/
def SearchOptions.patternOf (options : SearchOptions) (fs : FileSystem) (path : String) : String :=
  if fs.isDir path then options.directoryPattern path else path

namespace Selection
open Annodoc.Path
open Comment (exists_left_of_forall₂)
open Grammar (bind_eq_ok_iff mapError_eq_ok_iff)

/-- A path contributes itself if it is a file, even one that would be left out. Any other path
contributes the files that its pattern stands for, unless they are left out. -/
inductive Contributes (fs : FileSystem) (options : SearchOptions) (path : String) : String → Prop where
  | itself : fs.isFile path = true → Contributes fs options path path
  | matched {found : List String} {q : String} : fs.isFile path = false →
      Glob.paths fs (options.patternOf fs path) = .ok found → q ∈ found → fs.isFile q = true →
      options.leavesOut q = false → Contributes fs options path q

variable {fs : FileSystem} {options : SearchOptions} {path q : String} {paths others : List String}
  {s t : Selection}

theorem Contributes.isFile (h : Contributes fs options path q) : fs.isFile q = true := by
  cases h with
  | itself file => exact file
  | matched _ _ _ file => exact file

theorem mem_files_of_ofPath (selected : ofPath fs options path = .ok s) :
    q ∈ s.files ↔ Contributes fs options path q := by
  rw [ofPath] at selected
  split at selected
  · next file =>
    obtain rfl := Except.ok.inj selected
    rw [List.mem_singleton]
    constructor
    · rintro rfl
      exact .itself file
    · rintro (_ | other)
      · rfl
      · rw [file] at other
        cases other
  · next noFile =>
    have noFile : fs.isFile path = false := by simpa using noFile
    obtain ⟨found, matched, h⟩ := bind_eq_ok_iff.mp selected
    have matched := mapError_eq_ok_iff.mp matched
    obtain rfl := Except.ok.inj h
    rw [List.mem_filter, Bool.and_eq_true, Bool.not_eq_true']
    constructor
    · rintro ⟨mem, file, kept⟩
      exact .matched noFile matched mem file kept
    · rintro (file | ⟨_, other, mem, file, kept⟩)
      · rw [noFile] at file
        cases file
      · obtain rfl := Except.ok.inj (matched.symm.trans other)
        exact ⟨mem, file, kept⟩

/-- Of paths with the same components one is kept. -/
theorem exists_mem_dropRepeats {paths : List Path.Split} {p : Path.Split} (mem : p ∈ paths) :
    ∃ r ∈ dropRepeats paths, r.components = p.components := by
  fun_induction dropRepeats paths with
  | case1 => cases mem
  | case2 path rest ih =>
    by_cases same : path.components = p.components
    · exact ⟨path, List.mem_cons_self, same⟩
    · have later : p ∈ rest := (List.mem_cons.mp mem).resolve_left (by rintro rfl; exact same rfl)
      have kept : p ∈ rest.dropWhile fun r => r.components = path.components := by
        rw [← List.takeWhile_append_dropWhile (p := fun r => r.components = path.components)
          (l := rest)] at later
        refine (List.mem_append.mp later).resolve_left fun dropped => same ?_
        have equal := List.mem_takeWhile_imp dropped
        exact (of_decide_eq_true equal).symm
      obtain ⟨r, hr, eq⟩ := ih kept
      exact ⟨r, List.mem_cons_of_mem path hr, eq⟩

/-- What paths select comes from single paths, and what these contribute is there, maybe in another
spelling. -/
theorem files_of_ofPaths (selected : ofPaths fs options paths = .ok s) :
    (∀ q ∈ s.files, ∃ path ∈ paths, Contributes fs options path q) ∧
    ∀ path ∈ paths, ∀ q, Contributes fs options path q →
      ∃ r ∈ s.files, components r = components q := by
  obtain ⟨selections, each, h⟩ := bind_eq_ok_iff.mp selected
  obtain rfl := Except.ok.inj h
  rw [mapM_eq_ok_iff] at each
  constructor
  · intro q hq
    obtain ⟨r, hr, rfl⟩ := List.mem_map.mp hq
    have mem := List.mem_mergeSort.mp ((dropRepeats_sublist _).mem hr)
    obtain ⟨r, found, rfl⟩ := List.mem_map.mp mem
    obtain ⟨sel, hsel, hr⟩ := List.mem_flatMap.mp found
    obtain ⟨path, hpath, one⟩ := exists_left_of_forall₂ each sel hsel
    exact ⟨path, hpath, (mem_files_of_ofPath one).mp hr⟩
  · intro path hpath q contributes
    obtain ⟨sel, hsel, one⟩ := exists_left_of_forall₂ each.flip path hpath
    have found := List.mem_flatMap.mpr ⟨sel, hsel, (mem_files_of_ofPath one).mpr contributes⟩
    have mem : Path.split q ∈ (selections.flatMap files).map Path.split := List.mem_map_of_mem found
    obtain ⟨r, hr, same⟩ := exists_mem_dropRepeats (List.mem_mergeSort.mpr mem)
    exact ⟨r.path, List.mem_map_of_mem hr, r.components_eq ▸ same⟩

/-- The components that are selected are those of what the paths contribute. -/
theorem mem_components_iff (selected : ofPaths fs options paths = .ok s) (cs : List Component) :
    cs ∈ s.files.map components ↔
      ∃ path ∈ paths, ∃ q, Contributes fs options path q ∧ components q = cs := by
  obtain ⟨only, all⟩ := files_of_ofPaths selected
  rw [List.mem_map]
  constructor
  · rintro ⟨q, hq, eq⟩
    obtain ⟨path, hpath, contributes⟩ := only q hq
    exact ⟨path, hpath, q, contributes, eq⟩
  · rintro ⟨path, hpath, q, contributes, rfl⟩
    exact all path hpath q contributes

theorem pairwise_components (selected : ofPaths fs options paths = .ok s) :
    (s.files.map components).Pairwise fun cs ds => compareComponents cs ds = .lt :=
  List.pairwise_map.mpr (pairwise_precedes selected)

theorem compareComponents_irrefl (cs : List Component) : ¬ compareComponents cs cs = .lt := by
  have same : compareComponents cs cs = .eq := Std.ReflCmp.compare_self
  rw [same]
  decide

theorem nodup_components (selected : ofPaths fs options paths = .ok s) :
    (s.files.map components).Nodup := by
  apply (pairwise_components selected).imp
  rintro cs ds lt rfl
  exact compareComponents_irrefl cs lt

/-- Two selections with the same components have them in the same order. -/
theorem components_eq_of_mem_iff {other : SearchOptions}
    (selected : ofPaths fs options paths = .ok s) (selected' : ofPaths fs other others = .ok t)
    (same : ∀ cs, cs ∈ s.files.map components ↔ cs ∈ t.files.map components) :
    s.files.map components = t.files.map components := by
  refine List.Perm.eq_of_pairwise ?_ (pairwise_components selected) (pairwise_components selected')
    ((List.perm_ext_iff_of_nodup (nodup_components selected) (nodup_components selected')).mpr same)
  intro cs ds _ _ lt gt
  exact absurd (Std.TransCmp.lt_trans lt gt) (compareComponents_irrefl cs)

/-- A list of paths selects something if each of its paths does. -/
theorem exists_ofPaths (each : ∀ path ∈ paths, ∃ s, ofPath fs options path = .ok s) :
    ∃ s, ofPaths fs options paths = .ok s := by
  cases attempt : paths.mapM (ofPath fs options) with
  | ok selections =>
    rw [ofPaths, attempt]
    exact ⟨_, rfl⟩
  | error e =>
    obtain ⟨path, mem, failed⟩ := exists_of_mapM_eq_error attempt
    obtain ⟨s, one⟩ := each path mem
    rw [one] at failed
    cases failed

theorem exists_ofPath (selected : ofPaths fs options paths = .ok s) :
    ∀ path ∈ paths, ∃ s, ofPath fs options path = .ok s := by
  obtain ⟨selections, each, -⟩ := bind_eq_ok_iff.mp selected
  intro path mem
  obtain ⟨sel, -, one⟩ := exists_left_of_forall₂ (mapM_eq_ok_iff.mp each).flip path mem
  exact ⟨sel, one⟩

/-- The selected paths are files in the order of their components, and no two have the same. They are
the listed files, and the files that the patterns of the other paths stand for and that are not left
out. The same paths in another order, and repeated as one likes, select the same. -/
theorem ofPaths_listed (selected : ofPaths fs options paths = .ok s) :
    s.files.Pairwise Precedes ∧ (s.files.map components).Nodup ∧
    (∀ q ∈ s.files, fs.isFile q = true) ∧
    (∀ cs, cs ∈ s.files.map components ↔
      ∃ path ∈ paths, ∃ q, Contributes fs options path q ∧ components q = cs) ∧
    ∀ others : List String, (∀ path, path ∈ others ↔ path ∈ paths) →
      ∃ t, ofPaths fs options others = .ok t ∧
        t.files.map components = s.files.map components := by
  refine ⟨pairwise_precedes selected, nodup_components selected, fun q hq => ?_,
    mem_components_iff selected, fun others same => ?_⟩
  · obtain ⟨path, -, contributes⟩ := (files_of_ofPaths selected).1 q hq
    exact contributes.isFile
  · obtain ⟨t, selected'⟩ : ∃ t, ofPaths fs options others = .ok t :=
      exists_ofPaths fun path mem => exists_ofPath selected path ((same path).mp mem)
    refine ⟨t, selected', components_eq_of_mem_iff selected' selected fun cs => ?_⟩
    rw [mem_components_iff selected', mem_components_iff selected]
    simp only [same]

/-- Two files in a directory. -/
def twoSources : FileSystem :=
  let dir := FileSystem.empty ["work"]
  let first := dir.addFile ["work", "a", "b.lua"] (.bytes [])
  first.addFile ["work", "a", "c.lua"] (.bytes [])

/-- A listed file is selected although it is left out below its directory, and a file with two
spellings once. -/
theorem ofPaths_listed_two_spellings :
    let options : SearchOptions := { excluded := [[.sequence, .char 'c', .sequence]] }
    ∃ s t, ofPaths twoSources options ["a", "a/c.lua", "a/./b.lua"] = .ok s ∧
      ofPaths twoSources options ["a/./b.lua", "a/c.lua", "a", "a/c.lua"] = .ok t ∧
      t.files.map components = s.files.map components ∧ (s.files.map components).Nodup ∧
      components "a/b.lua" ∈ s.files.map components ∧
      components "a/c.lua" ∈ s.files.map components := by
  intro options
  have each : ∀ path ∈ ["a", "a/c.lua", "a/./b.lua"],
      (ofPath twoSources options path).toOption.isSome = true := by
    decide +kernel
  obtain ⟨s, selected⟩ : ∃ s, ofPaths twoSources options ["a", "a/c.lua", "a/./b.lua"] = .ok s := by
    apply exists_ofPaths
    intro path mem
    have some := each path mem
    cases one : ofPath twoSources options path with
    | ok s => exact ⟨s, rfl⟩
    | error e => simp [one, Except.toOption] at some
  obtain ⟨-, once, -, mem, listed⟩ := ofPaths_listed selected
  obtain ⟨t, selected', same⟩ := listed ["a/./b.lua", "a/c.lua", "a", "a/c.lua"] fun path => by
    simp only [List.mem_cons, List.not_mem_nil, or_false]
    tauto
  refine ⟨s, t, selected, selected', same, once, (mem _).mpr ?_, (mem _).mpr ?_⟩
  · exact ⟨"a/./b.lua", by simp, "a/./b.lua", .itself (by decide), by decide⟩
  · exact ⟨"a/c.lua", by simp, "a/c.lua", .itself (by decide), rfl⟩

end Selection
end Annodoc
