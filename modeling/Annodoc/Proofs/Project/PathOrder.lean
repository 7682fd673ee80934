import Annodoc.Proofs.Project.Loading

/-!
# Two orders of paths

The files of a project are read in the order of the components of their paths, and the catalog lists
them in the order of the paths as texts. Of several declarations of a name the one that is read last
wins. It is also the last one that is listed if one file comes last in both orders among those that
declare the name, as it does when they all lie in one directory. In general the two differ:
`a/b.lua` is read before `a.lua` and listed after it.
-/

namespace Annodoc

/-! ## Paths in one directory -/

namespace Path

/-- The name of an entry of a directory, as a path may spell it. -/
structure IsEntryName (name : String) : Prop where
  ne_empty : name ≠ ""
  ne_current : name ≠ "."
  ne_parent : name ≠ ".."
  no_slash : '/' ∉ name.toList

/-- A text that a name may follow: nothing, or a path that ends with a slash. -/
def IsDirPrefix (dir : String) : Prop := dir = "" ∨ ∃ path, dir = path ++ "/"

theorem splitSlash_of_no_slash {cs : List Char} (h : '/' ∉ cs) : splitSlash cs = [cs] := by
  induction cs with
  | nil => rfl
  | cons c cs ih =>
    rw [List.mem_cons, not_or] at h
    rw [splitSlash, if_neg (Ne.symm h.1), ih h.2]

theorem splitSlash_ne_nil (cs : List Char) : splitSlash cs ≠ [] := by
  fun_cases splitSlash cs <;> simp

theorem splitSlash_append (cs ds : List Char) :
    splitSlash (cs ++ '/' :: ds) = splitSlash cs ++ splitSlash ds := by
  induction cs with
  | nil => simp [splitSlash]
  | cons c cs ih =>
    rw [List.cons_append, splitSlash, splitSlash, ih]
    split
    · rfl
    · obtain ⟨part, parts, h⟩ := List.exists_cons_of_ne_nil (splitSlash_ne_nil cs)
      simp [h]

theorem steps_of_no_slash {step : String} (noSlash : '/' ∉ step.toList) : steps step = [step] := by
  rw [steps, splitSlash_of_no_slash noSlash, List.map_singleton, String.ofList_toList]

theorem steps_concat {step : String} (noSlash : '/' ∉ step.toList) (path : String) :
    steps (path ++ "/" ++ step) = steps path ++ [step] := by
  have spelled : (path ++ "/" ++ step).toList = path.toList ++ '/' :: step.toList := by simp
  rw [steps, spelled, splitSlash_append, List.map_append, splitSlash_of_no_slash noSlash]
  simp [steps]

theorem steps_append_slash (path : String) : steps (path ++ "/") = steps path ++ [""] := by
  have noStep : '/' ∉ "".toList := by simp
  simpa using steps_concat noStep path

theorem isAbsolute_of_no_slash {step : String} (noSlash : '/' ∉ step.toList) :
    isAbsolute step = false := by
  rw [isAbsolute, decide_eq_false_iff_not]
  intro head
  exact noSlash (List.mem_of_mem_head? head)

namespace IsEntryName
variable {name other dir : String}

theorem ofStep? (h : IsEntryName name) : Component.ofStep? name = some (.name name) := by
  rw [Component.ofStep?]
  · exact h.ne_empty
  · exact h.ne_current
  · exact h.ne_parent

theorem steps (h : IsEntryName name) : Path.steps name = [name] := steps_of_no_slash h.no_slash

theorem isAbsolute (h : IsEntryName name) : Path.isAbsolute name = false :=
  isAbsolute_of_no_slash h.no_slash

theorem steps_append (h : IsEntryName name) (path : String) :
    Path.steps (path ++ "/" ++ name) = Path.steps path ++ [name] :=
  steps_concat h.no_slash path

theorem isAbsolute_append (path : String) :
    Path.isAbsolute (path ++ "/" ++ name) = Path.isAbsolute (path ++ "/") := by
  cases h : path.toList <;> simp [Path.isAbsolute, h]

theorem filterMap_concat (h : IsEntryName name) (steps : List String) :
    (steps ++ [name]).filterMap Component.ofStep? =
      (steps ++ [""]).filterMap Component.ofStep? ++ [.name name] := by
  have nowhere : Component.ofStep? "" = none := rfl
  simp only [List.filterMap_append, List.filterMap_cons, List.filterMap_nil, h.ofStep?, nowhere,
    List.append_nil]

/-- A name adds one component to those of its directory. -/
theorem components_append (h : IsEntryName name) (fit : IsDirPrefix dir) :
    components (dir ++ name) = components dir ++ [.name name] := by
  rcases fit with rfl | ⟨path, rfl⟩
  · have alone : components name = [.name name] := by
      rw [components, h.isAbsolute, h.steps]
      split
      · next absolute => cases absolute
      · next same => exact absurd (List.cons.inj same).1 h.ne_current
      · simp [h.ofStep?]
    rw [String.empty_append, alone]
    rfl
  · obtain ⟨first, rest, steps⟩ : ∃ first rest, Path.steps path = first :: rest :=
      List.exists_cons_of_ne_nil (by simp [Path.steps, splitSlash_ne_nil])
    rw [components, components, isAbsolute_append, steps_append_slash, h.steps_append, steps]
    cases Path.isAbsolute (path ++ "/") with
    | true => exact congrArg _ (h.filterMap_concat (first :: rest))
    | false =>
      by_cases dot : first = "."
      · subst dot
        exact congrArg _ (h.filterMap_concat rest)
      · simpa [dot] using h.filterMap_concat (first :: rest)

end IsEntryName

theorem compareComponents_append (cs ds es : List Component) :
    compareComponents (cs ++ ds) (cs ++ es) = compareComponents ds es := by
  induction cs with
  | nil => rfl
  | cons c cs ih =>
    have same : Component.compare c c = .eq := Std.ReflCmp.compare_self
    rw [compareComponents, List.cons_append, List.cons_append, List.compareLex_cons_cons, same]
    exact ih

/-- In one directory the order of components is that of the texts. -/
theorem Precedes.lt_of_entries {dir name other : String} (fit : IsDirPrefix dir)
    (h : IsEntryName name) (k : IsEntryName other)
    (earlier : Precedes (dir ++ name) (dir ++ other)) : dir ++ name < dir ++ other := by
  rw [Precedes, Path.compare, h.components_append fit, k.components_append fit,
    compareComponents_append] at earlier
  have names : name < other := by
    have texts : Component.compare (.name name) (.name other) = .lt := by
      rw [compareComponents, List.compareLex_cons_cons, List.compareLex_nil_nil] at earlier
      simpa using earlier
    exact compareOfLessAndEq_eq_lt.mp texts
  rw [String.lt_iff, String.toList_append, String.toList_append]
  exact List.append_left_lt (String.lt_iff.mp names)

end Path

/-! ## The last file in both orders -/

namespace Catalog

def DeclaresClass (name : String) (x : String × FileDoc) : Prop :=
  ∃ cls ∈ x.2.classes, cls.name = name

instance (name : String) (x : String × FileDoc) : Decidable (DeclaresClass name x) :=
  inferInstanceAs (Decidable (∃ cls ∈ x.2.classes, cls.name = name))

def DeclaresAlias (name : String) (x : String × FileDoc) : Prop :=
  ∃ a ∈ x.2.aliases, a.name = name

/-- Among the files that declare something, this one comes last by components and by text. -/
structure LastInBothOrders (declares : String × FileDoc → Prop) (files : List (String × FileDoc))
    (last : String × FileDoc) : Prop where
  mem : last ∈ files
  declared : declares last
  after : ∀ x ∈ files, declares x → x = last ∨ Path.Precedes x.1 last.1 ∧ x.1 < last.1

/-- In an ordered list, what the last element with any contribution adds comes last. -/
theorem getLast?_flatMap_of_last {α β : Type} {before : α → α → Prop} {f : α → List β} {xs : List α}
    {last : α} (asymm : ∀ x y, before x y → ¬ before y x) (ordered : xs.Pairwise before)
    (mem : last ∈ xs) (some : f last ≠ [])
    (after : ∀ x ∈ xs, f x ≠ [] → x = last ∨ before x last) :
    (xs.flatMap f).getLast? = (f last).getLast? := by
  obtain ⟨above, below, rfl⟩ := List.append_of_mem mem
  have later : ∀ x ∈ below, before last x :=
    (List.pairwise_cons.mp (List.pairwise_append.mp ordered).2.1).1
  have nothing : below.flatMap f = [] := by
    rw [List.flatMap_eq_nil_iff]
    intro x hx
    by_contra some
    rcases after x (by simp [hx]) some with rfl | earlier
    · exact asymm x x (later x hx) (later x hx)
    · exact asymm x last earlier (later x hx)
  rw [List.flatMap_append, List.flatMap_cons, nothing, List.append_nil,
    List.getLast?_append_of_ne_nil _ some]

theorem lastClass_eq (files : List (String × FileDoc)) (name : String) :
    lastClass files name =
      (files.flatMap fun x => x.2.classes.filter (·.name = name)).getLast? := by
  rw [lastClass, declaredClasses, List.filter_flatMap]

theorem lastAlias_eq (files : List (String × FileDoc)) (name : String) :
    lastAlias files name =
      (files.flatMap fun x => x.2.aliases.filter (·.name = name)).getLast? := by
  rw [lastAlias, declaredAliases, List.filter_flatMap]

end Catalog

namespace Project
open Catalog
variable {fs : FileSystem} {options : SearchOptions} {paths : List String} {p : Project}
  {declares : String × FileDoc → Prop} {last : String × FileDoc}

/-- The file that comes last in both orders decides in both. -/
theorem getLast?_listed {β : Type} {f : String × FileDoc → List β}
    (loaded : load fs options paths = .ok p) (some : ∀ x, f x ≠ [] ↔ declares x)
    (h : LastInBothOrders declares p.sources last) :
    (p.catalog.files.flatMap f).getLast? = (p.sources.flatMap f).getLast? := by
  have same := catalog_files_perm loaded
  have declared : f last ≠ [] := (some last).mpr h.declared
  have read : (p.sources.flatMap f).getLast? = (f last).getLast? := by
    apply getLast?_flatMap_of_last _ (pairwise_sources loaded) h.mem declared
    · intro x hx nonempty
      exact (h.after x hx ((some x).mp nonempty)).imp_right And.left
    · intro x y xy yx
      exact Path.Precedes.irrefl _ (xy.trans yx)
  have listed : (p.catalog.files.flatMap f).getLast? = (f last).getLast? := by
    apply getLast?_flatMap_of_last _ (List.pairwise_map.mp p.catalog.sorted)
      (same.mem_iff.mpr h.mem) declared
    · intro x hx nonempty
      exact (h.after x (same.mem_iff.mp hx) ((some x).mp nonempty)).imp_right And.right
    · intro x y xy yx
      exact String.lt_irrefl _ (String.lt_trans xy yx)
  rw [listed, read]

/-- Where all files that declare something lie in one directory, one of them is the last in both
orders. -/
theorem exists_last_of_entries (loaded : load fs options paths = .ok p) {dir : String}
    (fit : Path.IsDirPrefix dir)
    (inside : ∀ x ∈ p.sources, declares x → ∃ name, Path.IsEntryName name ∧ x.1 = dir ++ name)
    (some : ∃ x ∈ p.sources, declares x) : ∃ last, LastInBothOrders declares p.sources last := by
  classical
  have member {x : String × FileDoc} :
      x ∈ p.sources.filter declares ↔ x ∈ p.sources ∧ declares x := by
    simp
  have ordered := (pairwise_sources loaded).filter declares
  rcases List.eq_nil_or_concat (p.sources.filter declares) with none | ⟨others, last, split⟩
  · obtain ⟨x, hx⟩ := some
    have mem := member.mpr hx
    simp [none] at mem
  · rw [split, List.concat_eq_append] at ordered member
    obtain ⟨mem, declared⟩ := member.mp (List.mem_concat_self)
    obtain ⟨name, entry, path⟩ := inside last mem declared
    refine ⟨last, mem, declared, fun x hx dx => ?_⟩
    rcases List.mem_append.mp (member.mpr ⟨hx, dx⟩) with earlier | same
    · have before := (List.pairwise_append.mp ordered).2.2 x earlier last (by simp)
      obtain ⟨other, entry', path'⟩ := inside x hx dx
      refine .inr ⟨before, ?_⟩
      rw [path, path'] at before ⊢
      exact before.lt_of_entries fit entry' entry
    · exact .inl (List.mem_singleton.mp same)

/-- A name resolves to its last declaration in the order of components. This is the last one that is
listed if the file it stands in is the last one in both orders. -/
theorem lookups_of_load (loaded : load fs options paths = .ok p) (text : String) :
    (p.catalog.class? text = lastClass p.sources (nameAsked text) ∧
      p.catalog.alias? text = lastAlias p.sources (nameAsked text)) ∧
    p.sources.Pairwise (fun x y => Path.Precedes x.1 y.1) ∧
    p.catalog.files.Perm p.sources ∧ p.catalog.files.Pairwise (fun x y => x.1 < y.1) ∧
    (∀ last, LastInBothOrders (DeclaresClass (nameAsked text)) p.sources last →
      p.catalog.class? text = lastClass p.catalog.files (nameAsked text)) ∧
    (∀ last, LastInBothOrders (DeclaresAlias (nameAsked text)) p.sources last →
      p.catalog.alias? text = lastAlias p.catalog.files (nameAsked text)) := by
  have cls : p.catalog.class? text = lastClass p.sources (nameAsked text) := by
    rw [class?_eq_classNamed?, catalog_eq_ofFiles, classNamed?_ofFiles]
  have als : p.catalog.alias? text = lastAlias p.sources (nameAsked text) := by
    rw [alias?_eq_aliasNamed?, catalog_eq_ofFiles, aliasNamed?_ofFiles]
  refine ⟨⟨cls, als⟩, pairwise_sources loaded, catalog_files_perm loaded,
    List.pairwise_map.mp p.catalog.sorted, ?_, ?_⟩
  · intro last h
    rw [cls, lastClass_eq, lastClass_eq]
    exact (getLast?_listed loaded (fun x => by simp [DeclaresClass]) h).symm
  · intro last h
    rw [als, lastAlias_eq, lastAlias_eq]
    exact (getLast?_listed loaded (fun x => by simp [DeclaresAlias]) h).symm

/-! ## A name that is declared twice -/

/-- The files that declare `x.C` come in different order by components and by text; those that
declare `x.D` do not. -/
def twiceDeclared : List (String × List UInt8) :=
  [("a/b.lua", "---@class x.C\n---@field q integer\n".toUTF8.toList),
    ("a.lua", "---@class x.C\n---@field p string\n".toUTF8.toList),
    ("c.lua", "---@class x.D\n---@field r string\n".toUTF8.toList),
    ("d.lua", "---@class x.D\n---@field s string\n".toUTF8.toList)]

def twiceDeclaredFiles : FileSystem :=
  let add (fs : FileSystem) (x : String × List UInt8) : FileSystem :=
    fs.addFile ("work" :: Path.steps x.1) (.bytes x.2)
  twiceDeclared.foldl add (.empty ["work"])

theorem twiceDeclared_read : ∀ x ∈ twiceDeclared, twiceDeclaredFiles.read x.1 = .ok x.2 := by
  decide +kernel

theorem twiceDeclared_ordered : (twiceDeclared.map Prod.fst).Pairwise Path.Precedes := by
  decide

def twiceDeclaredProject : Project where
  files := twiceDeclared.map fun (path, bytes) => (path, .ofBytes bytes)
  selection := []

theorem twiceDeclared_load :
    load twiceDeclaredFiles {} (twiceDeclared.map Prod.fst) = .ok twiceDeclaredProject :=
  load_of_files twiceDeclared_read twiceDeclared_ordered

/-- The path of a file, and the names of its classes, each with those of its public fields. -/
def classRow (x : String × FileDoc) : String × List (String × List String) :=
  (x.1, x.2.classes.map fun c => (c.name, c.publicParams.map Param.name))

theorem declaresClass_iff_row {name : String} {x : String × FileDoc} :
    DeclaresClass name x ↔ name ∈ (classRow x).2.map Prod.fst := by
  simp [DeclaresClass, classRow]

theorem fields_lastClass (files : List (String × FileDoc)) (name : String) :
    (lastClass files name).map (·.publicParams.map Param.name) =
      (((files.map classRow).flatMap Prod.snd).filter (·.1 = name)).getLast?.map Prod.snd := by
  rw [lastClass, declaredClasses, List.flatMap_map]
  simp only [classRow, ← List.map_flatMap, List.filter_map, List.getLast?_map, Option.map_map]
  rfl

theorem twiceDeclared_rows : twiceDeclaredProject.sources.map classRow =
    [("a/b.lua", [("x.C", ["q"])]), ("a.lua", [("x.C", ["p"])]), ("c.lua", [("x.D", ["r"])]),
      ("d.lua", [("x.D", ["s"])])] := by
  decide +kernel

/-- In the listing the first two files change places. -/
theorem twiceDeclared_listed : twiceDeclaredProject.catalog.files.map classRow =
    [("a.lua", [("x.C", ["p"])]), ("a/b.lua", [("x.C", ["q"])]), ("c.lua", [("x.D", ["r"])]),
      ("d.lua", [("x.D", ["s"])])] := by
  have same := (catalog_files_perm twiceDeclared_load).map classRow
  rw [twiceDeclared_rows] at same
  have listed : (twiceDeclaredProject.catalog.files.map classRow).Pairwise (·.1 < ·.1) :=
    List.pairwise_map.mpr (List.pairwise_map.mp twiceDeclaredProject.catalog.sorted)
  refine (same.trans (.swap _ _ _)).eq_of_pairwise ?_ listed (by decide)
  intro x y _ _ xy yx
  exact absurd (String.lt_trans xy yx) (String.lt_irrefl _)

/-- The name `x.D` resolves to the last declaration that is listed. -/
theorem lookups_of_load_same_order :
    load twiceDeclaredFiles {} (twiceDeclared.map Prod.fst) = .ok twiceDeclaredProject ∧
    (∃ last, LastInBothOrders (DeclaresClass "x.D") twiceDeclaredProject.sources last) ∧
    twiceDeclaredProject.catalog.class? "x.D" =
      lastClass twiceDeclaredProject.catalog.files "x.D" := by
  have asked : nameAsked "x.D" = "x.D" := by decide
  have inside : ∀ x ∈ twiceDeclaredProject.sources, DeclaresClass "x.D" x →
      x.1 = "c.lua" ∨ x.1 = "d.lua" := by
    intro x hx declared
    have row : classRow x ∈ twiceDeclaredProject.sources.map classRow := List.mem_map_of_mem hx
    rw [declaresClass_iff_row] at declared
    rw [twiceDeclared_rows] at row
    change (classRow x).1 = "c.lua" ∨ (classRow x).1 = "d.lua"
    generalize classRow x = r at row declared ⊢
    revert r
    decide
  have one : ∃ x ∈ twiceDeclaredProject.sources, DeclaresClass "x.D" x := by
    have row : ("d.lua", [("x.D", ["s"])]) ∈ twiceDeclaredProject.sources.map classRow := by
      rw [twiceDeclared_rows]
      decide
    obtain ⟨x, hx, row⟩ := List.mem_map.mp row
    exact ⟨x, hx, declaresClass_iff_row.mpr (by simp [row])⟩
  obtain ⟨last, both⟩ : ∃ last,
      LastInBothOrders (DeclaresClass "x.D") twiceDeclaredProject.sources last := by
    apply exists_last_of_entries twiceDeclared_load (.inl rfl) _ one
    intro x hx declared
    refine ⟨x.1, ?_, by simp⟩
    rcases inside x hx declared with path | path <;> rw [path] <;> constructor <;> decide
  have lookups := (lookups_of_load twiceDeclared_load "x.D").2.2.2.2.1
  rw [asked] at lookups
  exact ⟨twiceDeclared_load, ⟨last, both⟩, lookups last both⟩

/-- The name `x.C` does not: it resolves to the class with the field `p`, and the one with the field
`q` is listed last. -/
theorem lookup_differs_from_listing :
    load twiceDeclaredFiles {} (twiceDeclared.map Prod.fst) = .ok twiceDeclaredProject ∧
    (twiceDeclaredProject.files.map Prod.fst).Nodup ∧ nameAsked "x.C" = "x.C" ∧
    (twiceDeclaredProject.catalog.class? "x.C").map (·.publicParams.map Param.name) = some ["p"] ∧
    (lastClass twiceDeclaredProject.catalog.files "x.C").map (·.publicParams.map Param.name) =
      some ["q"] := by
  have asked : nameAsked "x.C" = "x.C" := by decide
  refine ⟨twiceDeclared_load, by decide, asked, ?_, ?_⟩
  · rw [class?_eq_classNamed?, asked, catalog_eq_ofFiles, classNamed?_ofFiles, fields_lastClass,
      twiceDeclared_rows]
    decide
  · rw [fields_lastClass, twiceDeclared_listed]
    decide

end Project
end Annodoc
