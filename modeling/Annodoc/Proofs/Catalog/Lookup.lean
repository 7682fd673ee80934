import Annodoc.Catalog.Basic
import Annodoc.Comment.Outcome
import Mathlib.Data.List.Basic
import Mathlib.Data.List.Induction

/-!
# Lookups

What a catalog answers after a sequence of additions. A path has the file that was added last under
it. A name has the class, and the alias, that was declared last, in the order of the additions and
of the declarations within a file. Where the name is asked for plays no part.
-/

namespace Annodoc
namespace Catalog

/-- The last declared class of a name. -/
def classNamed? (c : Catalog) (name : String) : Option ClassDoc := c.classes.find? (·.name = name)

/-- The last declared alias of a name. -/
def aliasNamed? (c : Catalog) (name : String) : Option AliasDoc := c.aliases.find? (·.name = name)

/-- The files of these sources, each under its path. -/
def parsed (sources : List (String × List Char)) : List (String × FileDoc) :=
  sources.map fun (path, text) => (path, Comment.fileOfText text)

def declaredClasses (files : List (String × FileDoc)) : List ClassDoc :=
  files.flatMap fun (_, file) => file.classes

def declaredAliases (files : List (String × FileDoc)) : List AliasDoc :=
  files.flatMap fun (_, file) => file.aliases

/-- The last class of a name, in the order of the files and of the declarations in each. -/
def lastClass (files : List (String × FileDoc)) (name : String) : Option ClassDoc :=
  ((declaredClasses files).filter (·.name = name)).getLast?

/-- The last alias of a name. -/
def lastAlias (files : List (String × FileDoc)) (name : String) : Option AliasDoc :=
  ((declaredAliases files).filter (·.name = name)).getLast?

variable {c : Catalog} {text name path : String} {file : FileDoc} {files : List (String × FileDoc)}

/-! ## Names -/

theorem class?_eq_classNamed? : c.class? text = c.classNamed? (nameAsked text) := rfl

theorem alias?_eq_aliasNamed? : c.alias? text = c.aliasNamed? (nameAsked text) := rfl

theorem name_of_classNamed? {cls : ClassDoc} (h : c.classNamed? name = some cls) :
    cls.name = name := by
  simpa using List.find?_some h

theorem nameAsked_nil (name : String) : nameAsked ("nil|" ++ name) = name := by
  have taken : Grammar.literal? "nil|" ("nil|" ++ name).toList = some name.toList :=
    List.isPrefixOf?_eq_some_iff_append_eq.mpr (by simp)
  simp only [nameAsked, taken, String.ofList_toList]

theorem nameAsked_of_no_bar (h : '|' ∉ name.toList) : nameAsked name = name := by
  have nothing : Grammar.literal? "nil|" name.toList = none := by
    cases taken : Grammar.literal? "nil|" name.toList with
    | none => rfl
    | some rest =>
      have whole := List.isPrefixOf?_eq_some_iff_append_eq.mp taken
      rw [← whole] at h
      simp at h
  simp only [nameAsked, nothing]

/-! ## Additions -/

theorem ofFiles_concat (files : List (String × FileDoc)) (x : String × FileDoc) :
    ofFiles (files ++ [x]) = (ofFiles files).add x.1 x.2 := by
  rw [ofFiles, List.foldl_concat, ← ofFiles]

theorem classes_ofFiles (files : List (String × FileDoc)) :
    (ofFiles files).classes = (declaredClasses files).reverse := by
  induction files using List.reverseRecOn with
  | nil => rfl
  | append_singleton files x ih => simp [ofFiles_concat, add, ih, declaredClasses]

theorem aliases_ofFiles (files : List (String × FileDoc)) :
    (ofFiles files).aliases = (declaredAliases files).reverse := by
  induction files using List.reverseRecOn with
  | nil => rfl
  | append_singleton files x ih => simp [ofFiles_concat, add, ih, declaredAliases]

theorem classNamed?_ofFiles (files : List (String × FileDoc)) (name : String) :
    (ofFiles files).classNamed? name = lastClass files name := by
  rw [classNamed?, lastClass, classes_ofFiles, List.getLast?_filter]

theorem aliasNamed?_ofFiles (files : List (String × FileDoc)) (name : String) :
    (ofFiles files).aliasNamed? name = lastAlias files name := by
  rw [aliasNamed?, lastAlias, aliases_ofFiles, List.getLast?_filter]

/-! ## Paths -/

/-- Putting a file changes what is there under its own path, and nothing else. -/
theorem mem_putFile_iff {x : String × FileDoc}
    (sorted : (files.map Prod.fst).Pairwise (· < ·)) :
    x ∈ putFile path file files ↔ x = (path, file) ∨ x.1 ≠ path ∧ x ∈ files := by
  induction files with
  | nil => simp [putFile]
  | cons y files ih =>
    obtain ⟨p, f⟩ := y
    simp only [List.map_cons, List.pairwise_cons] at sorted
    have above : ∀ x ∈ files, p < x.1 := fun x hx => sorted.1 x.1 (List.mem_map_of_mem hx)
    simp only [putFile]
    split
    · next lt =>
      have others : ∀ x ∈ (p, f) :: files, x.1 ≠ path := by
        intro x hx
        rcases List.mem_cons.mp hx with rfl | hx
        · exact (String.ne_of_lt lt).symm
        · exact (String.ne_of_lt (String.lt_trans lt (above x hx))).symm
      rw [List.mem_cons]
      exact or_congr_right ⟨fun hx => ⟨others x hx, hx⟩, And.right⟩
    · split
      · next same =>
        subst same
        have others : ∀ x ∈ files, x.1 ≠ path := fun x hx => (String.ne_of_lt (above x hx)).symm
        rw [List.mem_cons, List.mem_cons]
        apply or_congr_right
        constructor
        · intro hx
          exact ⟨others x hx, .inr hx⟩
        · rintro ⟨ne, rfl | hx⟩
          · exact absurd rfl ne
          · exact hx
      · next other =>
        rw [List.mem_cons, List.mem_cons, ih sorted.2]
        constructor
        · rintro (rfl | rfl | ⟨ne, hx⟩)
          · exact .inr ⟨Ne.symm other, .inl rfl⟩
          · exact .inl rfl
          · exact .inr ⟨ne, .inr hx⟩
        · rintro (rfl | ⟨ne, rfl | hx⟩)
          · exact .inr (.inl rfl)
          · exact .inl rfl
          · exact .inr (.inr ⟨ne, hx⟩)

theorem mem_files_ofFiles : (path, file) ∈ (ofFiles files).files ↔
    (files.filter (·.1 = path)).getLast? = some (path, file) := by
  induction files using List.reverseRecOn with
  | nil => simp [ofFiles, empty]
  | append_singleton files x ih =>
    obtain ⟨p, f⟩ := x
    rw [ofFiles_concat, add, mem_putFile_iff (ofFiles files).sorted, List.filter_append]
    by_cases same : p = path
    · subst same
      simp [eq_comm]
    · simp [same, Ne.symm same, ih]

theorem exists_source_of_mem_parsed {sources : List (String × List Char)}
    (h : (path, file) ∈ (ofFiles (parsed sources)).files) :
    ∃ text, (path, text) ∈ sources ∧ file = Comment.fileOfText text := by
  have added := List.mem_of_mem_filter (List.mem_of_getLast? (mem_files_ofFiles.mp h))
  obtain ⟨⟨p, text⟩, mem, eq⟩ := List.mem_map.mp added
  obtain ⟨rfl, rfl⟩ := Prod.mk.inj eq
  exact ⟨text, mem, rfl⟩

/-- Files that were put in order of their paths are told by their members. -/
theorem files_eq_of_mem_iff {c d : Catalog} (h : ∀ x, x ∈ c.files ↔ x ∈ d.files) :
    c.files = d.files := by
  have nodup (c : Catalog) : c.files.Nodup := by
    apply (List.pairwise_map.mp c.sorted).imp
    rintro x y lt rfl
    exact String.lt_irrefl x.1 lt
  refine List.Perm.eq_of_pairwise ?_ (List.pairwise_map.mp c.sorted)
    (List.pairwise_map.mp d.sorted) ?_
  · intro x y _ _ xy yx
    exact absurd (String.lt_trans xy yx) (String.lt_irrefl x.1)
  · exact (List.perm_ext_iff_of_nodup (nodup c) (nodup d)).mpr h

end Catalog
end Annodoc
