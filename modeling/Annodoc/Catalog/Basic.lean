import Annodoc.Documentation
import Annodoc.Grammar.Token
import Annodoc.LuaType.Printer

/-!
# Catalogs

The files of a project by their paths, with the classes and aliases that they declared. A name is
looked up only when it is asked for, so files may use what a later file declares.
-/

namespace Annodoc

/-- Files in the order of their paths, and all classes and aliases that were ever declared, the
latest first. -/
structure Catalog where
  files : List (String × FileDoc)
  classes : List ClassDoc
  aliases : List AliasDoc
  sorted : (files.map Prod.fst).Pairwise (· < ·)

namespace Catalog

/-- Puts a file at its place in the order of paths, where it replaces the file of its own path. -/
def putFile (path : String) (file : FileDoc) : List (String × FileDoc) → List (String × FileDoc)
  | [] => [(path, file)]
  | (p, f) :: rest =>
    if path < p then (path, file) :: (p, f) :: rest
    else if path = p then (path, file) :: rest
    else (p, f) :: putFile path file rest

theorem mem_putFile {path : String} {file : FileDoc} {files : List (String × FileDoc)} {q : String}
    (h : q ∈ (putFile path file files).map Prod.fst) : q = path ∨ q ∈ files.map Prod.fst := by
  induction files with
  | nil => simpa [putFile] using h
  | cons x rest ih =>
    obtain ⟨p, f⟩ := x
    simp only [putFile] at h
    split at h
    · simpa using h
    · split at h
      · rename_i eq
        simp_all
      · simp only [List.map_cons, List.mem_cons] at h ⊢
        rcases h with h | h
        · exact .inr (.inl h)
        · exact (ih h).imp_right .inr

theorem sorted_putFile (path : String) (file : FileDoc) {files : List (String × FileDoc)}
    (h : (files.map Prod.fst).Pairwise (· < ·)) :
    ((putFile path file files).map Prod.fst).Pairwise (· < ·) := by
  induction files with
  | nil => simp [putFile]
  | cons x rest ih =>
    obtain ⟨p, f⟩ := x
    simp only [List.map_cons, List.pairwise_cons] at h
    simp only [putFile]
    split
    · rename_i lt
      simp only [List.map_cons, List.pairwise_cons, List.mem_cons]
      refine ⟨?_, h⟩
      rintro q (rfl | hq)
      · exact lt
      · exact String.lt_trans lt (h.1 q hq)
    · split
      · rename_i eq
        subst eq
        simpa using h
      · rename_i nlt ne
        simp only [List.map_cons, List.pairwise_cons]
        refine ⟨fun q hq => ?_, ih h.2⟩
        rcases mem_putFile hq with rfl | hq
        · exact String.not_le.1 fun le => ne (String.le_antisymm le (String.not_lt.1 nlt))
        · exact h.1 q hq

/-- The catalog of no files. -/
def empty : Catalog := ⟨[], [], [], .nil⟩

/-- Adds a file. It replaces the file of the same path, whose classes and aliases stay known. -/
def add (c : Catalog) (path : String) (file : FileDoc) : Catalog where
  files := putFile path file c.files
  classes := file.classes.reverse ++ c.classes
  aliases := file.aliases.reverse ++ c.aliases
  sorted := sorted_putFile path file c.sorted

def ofFiles (files : List (String × FileDoc)) : Catalog :=
  files.foldl (fun c (path, file) => c.add path file) empty

def file? (c : Catalog) (path : String) : Option FileDoc :=
  (c.files.find? (·.1 = path)).map Prod.snd

/-- The name that the text of a type asks for. An optional place has the type `nil|name`. -/
def nameAsked (typeText : String) : String :=
  match Grammar.literal? "nil|" typeText.toList with
  | some name => String.ofList name
  | none => typeText

/-- The last declared class that the text of a type names. -/
def class? (c : Catalog) (typeText : String) : Option ClassDoc :=
  c.classes.find? (·.name = nameAsked typeText)

/-- The last declared alias that the text of a type names. -/
def alias? (c : Catalog) (typeText : String) : Option AliasDoc :=
  c.aliases.find? (·.name = nameAsked typeText)

/-- The fields of a class that may stand for a parameter. -/
def classParams (c : Catalog) (typeText : String) : List Param :=
  match c.class? typeText with
  | some cls => if cls.isOpaque then [] else cls.publicParams
  | none => []

def aliasValues (c : Catalog) (typeText : String) : List Choice :=
  (c.alias? typeText).elim [] AliasDoc.values

/-- The written parts of a parameter, or the fields of the class that its type names. -/
def subparams (c : Catalog) (p : Param) : List Param :=
  if p.subparams.isEmpty then c.classParams p.type.text else p.subparams

/-- The failures of all files, each with the path of its file. -/
def failures (c : Catalog) : List (String × BlockFailure) :=
  c.files.flatMap fun (path, file) => file.failures.map fun f => (path, f)

def failureCount (c : Catalog) : Nat := c.failures.length

/-- The functions that are shown. -/
def shown (withPrivate : Bool) (file : FileDoc) : List FunctionDoc :=
  file.functions.filter fun f => withPrivate || !f.isPrivate

end Catalog
end Annodoc
