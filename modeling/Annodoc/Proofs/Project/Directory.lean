import Annodoc.Proofs.Glob.Descent
import Annodoc.Proofs.Project.Listing

/-!
# Directories that are listed

A directory stands for the files below it that have the extension, each of them once, whatever its
name is and however its path is written. The files are there as far as the system opens the paths that
the walk spells. A walk that meets an empty step before it has left the working directory is set
aside here: it can miss files.
-/

namespace Annodoc

namespace Path

/-- How a walk below a directory spells a chain of names. -/
def spelled (path : String) (names : List String) : String := names.foldl Glob.extend (walked path)

/-- No empty step comes right behind the dots that lead a relative path. -/
def NoGap (path : String) : Prop :=
  isAbsolute path = false → ((walkSteps path).dropWhile (· = ".")).head? ≠ some ""

instance (path : String) : Decidable (NoGap path) := inferInstanceAs (Decidable (_ → _))

end Path

namespace Selection
open FileSystem (Way exists_locate_of_isDir exists_locate_of_isFile isFile_of_locate node?_of_locate
  pathLimit)
open Glob (EndsIn IsPlainExtension)
open Grammar (bind_eq_error_iff)
open Annodoc.Path (NoGap spelled)
variable {fs : FileSystem} {options : SearchOptions} {path extension q : String} {way goal : Way}
  {names others : List String} {s : Selection}

/-- A chain of names from a directory to a file that has the extension, and that the system opens at
the path that the walk spells. -/
structure IsSource (fs : FileSystem) (extension path : String) (way : Way) (names : List String) :
    Prop where
  ends : EndsIn extension names
  file : ∃ content, (fs.nodeAt way).at? names = some (.file content)
  opened : (spelled path names).utf8ByteSize ≤ pathLimit

theorem IsSource.nonempty (h : IsSource fs extension path way names) : names ≠ [] := by
  obtain ⟨name, last, -⟩ := h.ends
  rintro rfl
  cases last

section Directory
variable (tree : fs.root.WellFormed) (plain : IsPlainExtension extension) (noGap : NoGap path)
  (located : fs.locate path = .ok way)
include tree located noGap

/-- The spelled path of a source leads to it. -/
theorem IsSource.exists_locate (h : IsSource fs extension path way names) :
    ∃ below content, fs.locate (spelled path names) = .ok below ∧
      below.names = way.names ++ names ∧ fs.nodeAt below = .file content := by
  obtain ⟨first, walks⟩ := FileSystem.exists_walks located noGap
  obtain ⟨content, file⟩ := h.file
  have tree' := FileSystem.wellFormed_of_locate tree located
  obtain ⟨below, stands, same, node⟩ := walks.foldl.descend tree' file h.opened
  exact ⟨below, content, stands.located, same, node⟩

/-- Different chains are spelled with different components. -/
theorem IsSource.eq_of_components (h : IsSource fs extension path way names)
    (k : IsSource fs extension path way others)
    (same : Path.components (spelled path names) = Path.components (spelled path others)) :
    names = others := by
  obtain ⟨first, walks⟩ := FileSystem.exists_walks located noGap
  have tree' := FileSystem.wellFormed_of_locate tree located
  obtain ⟨content, file⟩ := h.file
  obtain ⟨content', file'⟩ := k.file
  have given := walks.foldl.ne_empty
  rw [spelled, spelled, Path.walked,
    Path.components_foldl_extend given h.nonempty fun n hn => (tree'.allowed file n hn).toIsEntryName,
    Path.components_foldl_extend given k.nonempty fun n hn => (tree'.allowed file' n hn).toIsEntryName]
    at same
  exact (List.map_injective_iff.mpr fun _ _ => Path.Component.name.inj) (List.append_cancel_left same)

include plain

/-- The pattern for a directory is one, and what it finds are the sources below. -/
theorem exists_paths_directory (dir : fs.isDir path = true) :
    ∃ found, Glob.paths fs (SearchOptions.patternOf { extension } fs path) = .ok found ∧
      ∀ q, q ∈ found ∧ fs.isFile q = true ↔
        ∃ names, IsSource fs extension path way names ∧ spelled path names = q := by
  obtain ⟨first, walks⟩ := FileSystem.exists_walks located noGap
  obtain ⟨-, given, -⟩ := FileSystem.checked_of_locate located
  obtain ⟨found, paths, mem⟩ :=
    Glob.exists_paths_directoryPattern { extension } tree plain walks given
  have tree' := FileSystem.wellFormed_of_locate tree located
  refine ⟨found, by rw [SearchOptions.patternOf, if_pos dir, paths], fun q => ?_⟩
  constructor
  · rintro ⟨hq, file⟩
    obtain ⟨below, content, led, node⟩ := exists_locate_of_isFile file
    have short := (FileSystem.checked_of_locate led).2.2
    obtain ⟨names, ends, there, rfl⟩ := (mem q short).mp hq
    obtain ⟨goal, there⟩ := Option.isSome_iff_exists.mp there
    -- what is at the chain of names is what the path leads to
    obtain ⟨_, stands, -, same⟩ := walks.foldl.descend tree' there short
    obtain rfl := Except.ok.inj (led.symm.trans stands.located)
    exact ⟨names, ⟨ends, ⟨content, by rw [there, ← same, node]⟩, short⟩, rfl⟩
  · rintro ⟨names, source, rfl⟩
    obtain ⟨below, content, led, -, node⟩ := source.exists_locate tree noGap located
    obtain ⟨content', file⟩ := source.file
    exact ⟨(mem _ source.opened).mpr ⟨names, source.ends, by rw [file]; rfl, rfl⟩,
      isFile_of_locate led node⟩

/-- A directory contributes its sources. -/
theorem contributes_directory_iff (dir : fs.isDir path = true) :
    Contributes fs { extension } path q ↔
      ∃ names, IsSource fs extension path way names ∧ spelled path names = q := by
  have noFile : fs.isFile path = false := by
    rw [Bool.eq_false_iff]
    intro file
    obtain ⟨_, es, dir, node⟩ := exists_locate_of_isDir dir
    obtain ⟨_, content, file, node'⟩ := exists_locate_of_isFile file
    obtain rfl := Except.ok.inj (dir.symm.trans file)
    cases node.symm.trans node'
  obtain ⟨found, paths, sources⟩ := exists_paths_directory tree plain noGap located dir
  rw [← sources]
  constructor
  · rintro (file | ⟨_, other, mem, file, -⟩)
    · rw [noFile] at file
      cases file
    · obtain rfl := Except.ok.inj (paths.symm.trans other)
      exact ⟨mem, file⟩
  · rintro ⟨mem, file⟩
    exact .matched noFile paths mem file rfl

end Directory

/-- Elements that all come from somewhere come from a list. -/
theorem exists_map_eq {α β : Type} {f : α → β} {P : α → Prop} {ys : List β}
    (each : ∀ y ∈ ys, ∃ x, P x ∧ f x = y) : ∃ xs : List α, (∀ x ∈ xs, P x) ∧ xs.map f = ys := by
  induction ys with
  | nil => exact ⟨[], by simp, rfl⟩
  | cons y ys ih =>
    obtain ⟨x, hx, rfl⟩ := each y List.mem_cons_self
    obtain ⟨xs, hxs, rfl⟩ := ih fun y hy => each y (List.mem_cons_of_mem _ hy)
    exact ⟨x :: xs, List.forall_mem_cons.mpr ⟨hx, hxs⟩, rfl⟩

theorem exists_ofPaths_directory (tree : fs.root.WellFormed) (plain : IsPlainExtension extension)
    (noGap : NoGap path) (dir : fs.isDir path = true) :
    ∃ s, ofPaths fs { extension } [path] = .ok s := by
  apply exists_ofPaths
  intro other mem
  rw [List.mem_singleton.mp mem]
  obtain ⟨way, -, located, -⟩ := exists_locate_of_isDir dir
  obtain ⟨found, paths, -⟩ := exists_paths_directory tree plain noGap located dir
  rw [SearchOptions.patternOf, if_pos dir] at paths
  cases attempt : ofPath fs { extension } path with
  | ok s => exact ⟨s, rfl⟩
  | error e =>
    rw [ofPath] at attempt
    split at attempt
    · cases attempt
    · rcases bind_eq_error_iff.mp attempt with failed | ⟨_, -, failed⟩
      · rw [paths] at failed
        cases failed
      · cases failed

/-- A directory alone selects each file below it that has the extension once, and nothing else: the
selected paths are spelled from different chains of names, and each leads to the file at its chain.
These are all such chains whose spelled paths the system opens. -/
theorem ofPaths_directory (tree : fs.root.WellFormed) (plain : IsPlainExtension extension)
    (noGap : NoGap path) (dir : fs.isDir path = true) :
    ∃ (s : Selection) (way : Way) (chains : List (List String)),
      ofPaths fs { extension } [path] = .ok s ∧ fs.locate path = .ok way ∧
      s.files = chains.map (spelled path) ∧ chains.Nodup ∧
      (∀ names, names ∈ chains ↔ EndsIn extension names ∧
        (∃ content, (fs.nodeAt way).at? names = some (.file content)) ∧
        (spelled path names).utf8ByteSize ≤ pathLimit) ∧
      ∀ names ∈ chains, ∃ below, fs.locate (spelled path names) = .ok below ∧
        below.names = way.names ++ names := by
  obtain ⟨way, -, located, -⟩ := exists_locate_of_isDir dir
  obtain ⟨s, selected⟩ := exists_ofPaths_directory tree plain noGap dir
  obtain ⟨only, all⟩ := files_of_ofPaths selected
  obtain ⟨chains, sources, files⟩ : ∃ chains : List (List String),
      (∀ names ∈ chains, IsSource fs extension path way names) ∧
        chains.map (spelled path) = s.files := by
    apply exists_map_eq
    intro q hq
    obtain ⟨other, mem, contributes⟩ := only q hq
    rw [List.mem_singleton.mp mem] at contributes
    exact (contributes_directory_iff tree plain noGap located dir).mp contributes
  refine ⟨s, way, chains, selected, located, files.symm, ?_, fun names => ⟨fun mem => ?_, ?_⟩, ?_⟩
  · have once := (nodup_components selected).of_map
    rw [← files] at once
    exact once.of_map
  · exact ⟨(sources names mem).ends, (sources names mem).file, (sources names mem).opened⟩
  · rintro ⟨ends, file, opened⟩
    have source : IsSource fs extension path way names := ⟨ends, file, opened⟩
    have contributes := (contributes_directory_iff tree plain noGap located dir).mpr
      ⟨names, source, rfl⟩
    obtain ⟨r, hr, same⟩ := all path List.mem_cons_self _ contributes
    rw [← files] at hr
    obtain ⟨others, mem, rfl⟩ := List.mem_map.mp hr
    rwa [source.eq_of_components tree noGap located (sources others mem) same.symm]
  · intro names mem
    obtain ⟨below, -, led, same, -⟩ := (sources names mem).exists_locate tree noGap located
    exact ⟨below, led, same⟩

/-! ## Names that are no literals, and walks that find nothing -/

/-- Whether there is a file at a chain of names from a directory. -/
def hasFile (fs : FileSystem) (path : String) (names : List String) : Bool :=
  match (fs.node? path).bind (Node.at? names) with
  | some (.file _) => true
  | _ => false

theorem hasFile_iff (located : fs.locate path = .ok way) :
    hasFile fs path names = true ↔ ∃ content, (fs.nodeAt way).at? names = some (.file content) := by
  rw [hasFile, node?_of_locate located, Option.bind_some]
  cases (fs.nodeAt way).at? names with
  | none => simp
  | some node => cases node <;> simp

/-- A directory with brackets in its name, a directory in it that has the extension, and a hidden
file there. -/
def oddNames : FileSystem where
  root := .dir [("work", .dir [("b[1]", .dir [("a?*.lua", .file (.bytes [])),
    ("x.lua", .dir [(".lua", .file (.bytes []))]), ("y.txt", .file (.bytes []))])])]
  home := ["work"]

theorem oddNames_wellFormed : oddNames.root.WellFormed := by
  have file := Node.wellFormed_file (.bytes [])
  have names : ∀ name ∈ ["work", "b[1]", "a?*.lua", "x.lua", ".lua", "y.txt"],
      Path.IsFileName name := by decide
  simp only [List.forall_mem_cons] at names
  obtain ⟨work, outer, first, inner, hidden, last, -⟩ := names
  have file := Node.wellFormed_file (.bytes [])
  have below := Node.wellFormed_singleton hidden file
  refine Node.wellFormed_singleton work (Node.wellFormed_singleton outer ?_)
  exact Node.wellFormed_dir (by simp) (by simp [first, inner, last, file, below])

/-- The names stand for themselves, and the directory with the extension is no file. -/
theorem ofPaths_directory_oddNames :
    oddNames.root.WellFormed ∧ IsPlainExtension "lua" ∧ NoGap "./b[1]//" ∧
    oddNames.isDir "./b[1]//" = true ∧
    ∃ (s : Selection) (chains : List (List String)),
      ofPaths oddNames { extension := "lua" } ["./b[1]//"] = .ok s ∧
      s.files = chains.map (spelled "./b[1]//") ∧ chains.Nodup ∧
      ["a?*.lua"] ∈ chains ∧ ["x.lua", ".lua"] ∈ chains ∧ ["x.lua"] ∉ chains ∧
      "b[1]/x.lua/.lua" ∈ s.files := by
  have plain : IsPlainExtension "lua" := by simp [IsPlainExtension]
  have noGap : NoGap "./b[1]//" := by decide
  have dir : oddNames.isDir "./b[1]//" = true := by decide
  obtain ⟨s, way, chains, selected, located, files, once, mem, -⟩ :=
    ofPaths_directory oddNames_wellFormed plain noGap dir
  have first : ["a?*.lua"] ∈ chains :=
    (mem _).mpr ⟨⟨_, rfl, by decide⟩, (hasFile_iff located).mp (by decide), by decide⟩
  have second : ["x.lua", ".lua"] ∈ chains :=
    (mem _).mpr ⟨⟨_, rfl, by decide⟩, (hasFile_iff located).mp (by decide), by decide⟩
  refine ⟨oddNames_wellFormed, plain, noGap, dir, s, chains, selected, files, once, first, second,
    ?_, ?_⟩
  · intro third
    have file := (hasFile_iff located).mpr ((mem _).mp third).2.1
    revert file
    decide
  · have path : spelled "./b[1]//" ["x.lua", ".lua"] = "b[1]/x.lua/.lua" := by decide
    rw [files, ← path]
    exact List.mem_map_of_mem second

/-- A directory with one file. -/
def loneFile : FileSystem where
  root := .dir [("work", .dir [("b", .dir [("x.lua", .file (.bytes []))])])]
  home := ["work"]

theorem loneFile_wellFormed : loneFile.root.WellFormed := by
  have names : ∀ name ∈ ["work", "b", "x.lua"], Path.IsFileName name := by decide
  simp only [List.forall_mem_cons] at names
  obtain ⟨work, outer, inner, -⟩ := names
  exact Node.wellFormed_singleton work (Node.wellFormed_singleton outer
    (Node.wellFormed_singleton inner (Node.wellFormed_file (.bytes []))))

/-- The directory `b`, with a dot as each further step. -/
def dotted : Nat → String
  | 0 => "b"
  | n + 1 => dotted n ++ "/" ++ "."

section Dotted
open Annodoc.Path (walkSteps walkStart walked trimmed)
variable (n : Nat)

theorem size_dotted : (dotted n).utf8ByteSize = 2 * n + 1 := by
  induction n with
  | zero => rfl
  | succ n ih =>
    have slash : "/".utf8ByteSize = 1 := rfl
    have dot : ".".utf8ByteSize = 1 := rfl
    rw [dotted, String.utf8ByteSize_append, String.utf8ByteSize_append, ih, slash, dot]
    omega

theorem exists_last_dotted : ∃ cs c, (dotted n).toList = cs ++ [c] ∧ c ≠ '/' := by
  cases n with
  | zero => exact ⟨[], 'b', by decide, by decide⟩
  | succ n => exact ⟨(dotted n).toList ++ ['/'], '.', by simp [dotted], by decide⟩

theorem dotted_ne_empty : dotted n ≠ "" := by
  intro empty
  have size := size_dotted n
  rw [empty] at size
  exact absurd size (by simp)

theorem join_dotted : Path.join (dotted n) "." = dotted (n + 1) := by
  obtain ⟨cs, c, last, noSlash⟩ := exists_last_dotted n
  rw [Path.join, if_neg, dotted]
  simp [last, noSlash, dotted_ne_empty]

theorem isCurrent_dotted : Path.isCurrent (dotted n) = false := by
  induction n with
  | zero => decide
  | succ n ih =>
    rw [Bool.eq_false_iff] at ih ⊢
    rw [← join_dotted]
    exact fun current => ih (Path.isCurrent_of_join (dotted_ne_empty n) (by decide) current)

theorem extend_dotted : Glob.extend (dotted n) "." = dotted (n + 1) := by
  rw [Glob.extend, isCurrent_dotted, ← join_dotted]
  rfl

theorem steps_dotted : Path.steps (dotted n) = "b" :: List.replicate n "." := by
  induction n with
  | zero => decide
  | succ n ih =>
    rw [dotted, Path.steps_concat (by decide), ih, List.replicate_succ']
    rfl

theorem isAbsolute_dotted : Path.isAbsolute (dotted n) = false := by
  rw [Bool.eq_false_iff]
  intro absolute
  have head := Path.head_steps_eq_empty_iff.mpr (.inr absolute)
  rw [steps_dotted] at head
  exact absurd head (by simp)

theorem walkSteps_dotted : walkSteps (dotted n) = "b" :: List.replicate n "." := by
  have whole : trimmed (dotted n) = dotted n := by
    obtain ⟨cs, c, last, noSlash⟩ := exists_last_dotted n
    rw [trimmed, last, List.rdropWhile_concat_neg _ _ _ (by simpa using noSlash), ← last,
      String.ofList_toList]
  rw [walkSteps, isAbsolute_dotted, whole, steps_dotted]
  rfl

/-- A walk keeps the dots behind the first name. -/
theorem walked_dotted : walked (dotted n) = dotted n := by
  have first : Glob.extend "." "b" = dotted 0 := by decide
  have kept : (List.replicate n ".").foldl Glob.extend (dotted 0) = dotted n := by
    induction n with
    | zero => rfl
    | succ n ih => rw [List.replicate_succ', List.foldl_append, ih, ← extend_dotted]; rfl
  rw [walked, walkSteps_dotted, walkStart, isAbsolute_dotted, ← kept, ← first]
  rfl

theorem stands_dotted (short : 2 * n + 1 ≤ pathLimit) (stands : fs.Stands (dotted 0) way)
    (dir : ∃ es, fs.nodeAt way = .dir es) : fs.Stands (dotted n) way := by
  induction n with
  | zero => exact stands
  | succ n ih =>
    obtain ⟨es, dir⟩ := dir
    rw [← extend_dotted]
    refine (ih (by omega)).extend (FileSystem.enter_eq_ok_iff.mpr (.stay dir (.inr rfl))) (by decide)
      (by decide) (by simp) ?_
    rw [extend_dotted, size_dotted]
    exact short

theorem noGap_dotted : NoGap (dotted n) := by
  intro _
  rw [walkSteps_dotted]
  simp

/-- All that is below has a longer path. -/
theorem size_lt_spelled_dotted (nonempty : names ≠ [])
    (entries : ∀ name ∈ names, Path.IsEntryName name) :
    (dotted n).utf8ByteSize < (spelled (dotted n) names).utf8ByteSize := by
  obtain ⟨name, names, rfl⟩ := List.exists_cons_of_ne_nil nonempty
  have inked : name.utf8ByteSize ≠ 0 :=
    mt String.utf8ByteSize_eq_zero_iff.mp (entries name List.mem_cons_self).ne_empty
  have on : Glob.extend (dotted n) name = Path.join (dotted n) name := by
    rw [Glob.extend, isCurrent_dotted]
    rfl
  have longer := Path.size_le_join (dotted n) name
  have longest := Glob.size_le_foldl_join names (Path.join (dotted n) name)
  rw [spelled, walked_dotted, Path.foldl_extend_cons (dotted_ne_empty n) entries, on]
  omega

end Dotted

/-- A directory is there with a file in it, and nothing is selected. -/
def Misses (fs : FileSystem) (path : String) : Prop :=
  fs.isDir path = true ∧
  (∃ way content, fs.locate path = .ok way ∧
    (fs.nodeAt way).at? ["x.lua"] = some (.file content)) ∧
  ∃ s, ofPaths fs { extension := "lua" } [path] = .ok s ∧ s.files = []

theorem files_eq_nil (selected : ofPaths fs options [path] = .ok s)
    (none : ∀ q, ¬ Contributes fs options path q) : s.files = [] := by
  rw [List.eq_nil_iff_forall_not_mem]
  intro q hq
  obtain ⟨other, mem, contributes⟩ := (files_of_ofPaths selected).1 q hq
  rw [List.mem_singleton.mp mem] at contributes
  exact none q contributes

/-- An empty step behind a leading dot ends the walk before the directory. -/
theorem misses_gap : Misses loneFile ".//b" := by
  have dir : loneFile.isDir ".//b" = true := by decide
  obtain ⟨way, -, located, -⟩ := exists_locate_of_isDir dir
  obtain ⟨content, file⟩ := (hasFile_iff located).mp
    (show hasFile loneFile ".//b" ["x.lua"] = true by decide)
  have nothing : (ofPath loneFile { extension := "lua" } ".//b").toOption.map files = some [] := by
    decide +kernel
  cases one : ofPath loneFile { extension := "lua" } ".//b" with
  | error e => simp [one, Except.toOption] at nothing
  | ok sel =>
    obtain ⟨s, selected⟩ : ∃ s, ofPaths loneFile { extension := "lua" } [".//b"] = .ok s := by
      apply exists_ofPaths
      intro path mem
      rw [List.mem_singleton.mp mem]
      exact ⟨sel, one⟩
    refine ⟨dir, ⟨way, content, located, file⟩, s, selected, files_eq_nil selected fun q h => ?_⟩
    have mem := (mem_files_of_ofPath one).mpr h
    simp only [one, Except.toOption, Option.map_some, Option.some.injEq] at nothing
    rw [nothing] at mem
    cases mem

/-- The path is as long as the system allows, so no file has one below it. -/
theorem misses_long : Misses loneFile (dotted 2047) := by
  have dirB : loneFile.isDir "b" = true := by decide
  obtain ⟨way, es, locatedB, node⟩ := exists_locate_of_isDir dirB
  have stands : loneFile.Stands (dotted 2047) way :=
    stands_dotted 2047 (by decide) ⟨locatedB, fun current => absurd current (by decide)⟩
      ⟨es, node⟩
  obtain ⟨content, file⟩ := (hasFile_iff locatedB).mp
    (show hasFile loneFile "b" ["x.lua"] = true by decide)
  have dir := FileSystem.isDir_of_locate stands.located node
  have plain : IsPlainExtension "lua" := by simp [IsPlainExtension]
  have noGap := noGap_dotted 2047
  obtain ⟨s, selected⟩ := exists_ofPaths_directory loneFile_wellFormed plain noGap dir
  refine ⟨dir, ⟨way, content, stands.located, file⟩, s, selected, files_eq_nil selected fun q h => ?_⟩
  obtain ⟨names, source, -⟩ :=
    (contributes_directory_iff loneFile_wellFormed plain noGap stands.located dir).mp h
  have tree := FileSystem.wellFormed_of_locate loneFile_wellFormed stands.located
  obtain ⟨other, there⟩ := source.file
  have longer := size_lt_spelled_dotted 2047 source.nonempty fun name mem =>
    (tree.allowed there name mem).toIsEntryName
  have opened := source.opened
  rw [size_dotted] at longer
  rw [pathLimit] at opened
  omega

/-- A walk can miss a file for either reason. -/
theorem ofPaths_misses : loneFile.root.WellFormed ∧ IsPlainExtension "lua" ∧
    EndsIn "lua" ["x.lua"] ∧ Misses loneFile ".//b" ∧ Misses loneFile (dotted 2047) :=
  ⟨loneFile_wellFormed, by simp [IsPlainExtension], ⟨_, rfl, by decide⟩, misses_gap,
    misses_long⟩

end Selection
end Annodoc
