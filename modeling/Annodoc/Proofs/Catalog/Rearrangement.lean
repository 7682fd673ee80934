import Annodoc.Catalog.Format
import Annodoc.Proofs.Catalog.PublicView
import Mathlib.Data.List.FinRange

/-!
# The order of additions

Two additions do not get in each other's way if their paths differ and no class and no alias of the
one has the name of one of the other. A sequence of additions may be rearranged as long as all
others keep their order: the catalog has the same files and gives the same answers, and whatever
is written from it is the same.
-/

namespace Annodoc
namespace Catalog

/-- Two additions whose order may show. -/
def Interfere (x y : String × FileDoc) : Prop :=
  x.1 = y.1 ∨ (∃ a ∈ x.2.classes, ∃ b ∈ y.2.classes, a.name = b.name) ∨
    ∃ a ∈ x.2.aliases, ∃ b ∈ y.2.aliases, a.name = b.name

/-- The additions `ys` are those of `xs`, each moved to its new place, and those that interfere
with each other come in the same order as before. -/
structure KeepsOrder (xs ys : List (String × FileDoc)) (place : Fin xs.length ≃ Fin ys.length) :
    Prop where
  same : ∀ i, ys.get (place i) = xs.get i
  kept : ∀ i j, i < j → Interfere (xs.get i) (xs.get j) → place i < place j

/-- The places of the additions that have a property. -/
def placesOf (p : String × FileDoc → Bool) (xs : List (String × FileDoc)) : List (Fin xs.length) :=
  (List.finRange xs.length).filter (p ∘ xs.get)

variable {xs ys : List (String × FileDoc)} {place : Fin xs.length ≃ Fin ys.length}
  {p : String × FileDoc → Bool}

/-! ## Additions that interfere pairwise -/

theorem map_get_placesOf (p : String × FileDoc → Bool) (xs : List (String × FileDoc)) :
    (placesOf p xs).map xs.get = xs.filter p := by
  rw [placesOf, ← List.filter_map, List.map_get_finRange]

theorem pairwise_placesOf (p : String × FileDoc → Bool) (xs : List (String × FileDoc)) :
    (placesOf p xs).Pairwise (· < ·) := (List.pairwise_lt_finRange _).filter _

theorem mem_placesOf {i : Fin xs.length} : i ∈ placesOf p xs ↔ p (xs.get i) = true := by
  simp [placesOf]

namespace KeepsOrder

theorem map_placesOf (h : KeepsOrder xs ys place)
    (interfere : ∀ x y, p x = true → p y = true → Interfere x y) :
    (placesOf p xs).map place = placesOf p ys := by
  have ordered : ((placesOf p xs).map place).Pairwise (· < ·) := by
    rw [List.pairwise_map]
    apply (pairwise_placesOf p xs).imp_of_mem
    intro i j hi hj lt
    exact h.kept i j lt (interfere _ _ (mem_placesOf.mp hi) (mem_placesOf.mp hj))
  have members : ∀ j, j ∈ (placesOf p xs).map place ↔ j ∈ placesOf p ys := by
    intro j
    rw [List.mem_map, mem_placesOf]
    constructor
    · rintro ⟨i, hi, rfl⟩
      rw [h.same]
      exact mem_placesOf.mp hi
    · intro hj
      refine ⟨place.symm j, mem_placesOf.mpr ?_, place.apply_symm_apply j⟩
      rwa [← h.same, place.apply_symm_apply]
  have sorted := pairwise_placesOf p ys
  refine List.Perm.eq_of_pairwise ?_ ordered sorted ?_
  · intro i j _ _ ij ji
    exact absurd ij (lt_asymm ji)
  · exact (List.perm_ext_iff_of_nodup (ordered.imp ne_of_lt) (sorted.imp ne_of_lt)).mpr members

/-- Additions of which any two interfere are the same sequence before and after. -/
theorem filter_eq (h : KeepsOrder xs ys place)
    (interfere : ∀ x y, p x = true → p y = true → Interfere x y) :
    xs.filter p = ys.filter p := by
  rw [← map_get_placesOf p ys, ← h.map_placesOf interfere, List.map_map, ← map_get_placesOf p xs]
  exact List.map_congr_left fun i _ => (h.same i).symm

end KeepsOrder

/-! ## Declarations of one name -/

/-- What is found in a list of additions is found in those that hold anything of it. -/
theorem flatMap_filter {α : Type} {part : String × FileDoc → List α}
    (nothing : ∀ x, p x = false → part x = []) (xs : List (String × FileDoc)) :
    (xs.filter p).flatMap part = xs.flatMap part := by
  induction xs with
  | nil => rfl
  | cons x xs ih =>
    cases hp : p x with
    | true => rw [List.filter_cons_of_pos hp, List.flatMap_cons, List.flatMap_cons, ih]
    | false =>
      rw [List.filter_cons_of_neg (by simp [hp]), List.flatMap_cons, nothing x hp,
        List.nil_append, ih]

namespace KeepsOrder

/-- Declarations that make their additions interfere come in the same order. -/
theorem filter_flatMap_eq (h : KeepsOrder xs ys place) {α : Type}
    {part : String × FileDoc → List α} {named : α → Bool}
    (interfere : ∀ x y, (part x).any named = true → (part y).any named = true → Interfere x y) :
    (xs.flatMap part).filter named = (ys.flatMap part).filter named := by
  have nothing : ∀ x, (part x).any named = false → (part x).filter named = [] := by
    intro x hx
    simpa [List.filter_eq_nil_iff] using hx
  rw [List.filter_flatMap, List.filter_flatMap,
    ← flatMap_filter (p := fun x => (part x).any named) nothing xs,
    ← flatMap_filter (p := fun x => (part x).any named) nothing ys, h.filter_eq interfere]

theorem classNamed?_eq (h : KeepsOrder xs ys place) (name : String) :
    (ofFiles xs).classNamed? name = (ofFiles ys).classNamed? name := by
  rw [classNamed?_ofFiles, classNamed?_ofFiles, lastClass, lastClass, declaredClasses,
    declaredClasses, h.filter_flatMap_eq]
  intro x y hx hy
  obtain ⟨a, ha, rfl⟩ : ∃ a ∈ x.2.classes, a.name = name := by simpa using hx
  obtain ⟨b, hb, same⟩ : ∃ b ∈ y.2.classes, b.name = a.name := by simpa using hy
  exact .inr (.inl ⟨a, ha, b, hb, same.symm⟩)

theorem aliasNamed?_eq (h : KeepsOrder xs ys place) (name : String) :
    (ofFiles xs).aliasNamed? name = (ofFiles ys).aliasNamed? name := by
  rw [aliasNamed?_ofFiles, aliasNamed?_ofFiles, lastAlias, lastAlias, declaredAliases,
    declaredAliases, h.filter_flatMap_eq]
  intro x y hx hy
  obtain ⟨a, ha, rfl⟩ : ∃ a ∈ x.2.aliases, a.name = name := by simpa using hx
  obtain ⟨b, hb, same⟩ : ∃ b ∈ y.2.aliases, b.name = a.name := by simpa using hy
  exact .inr (.inr ⟨a, ha, b, hb, same.symm⟩)

theorem files_eq (h : KeepsOrder xs ys place) : (ofFiles xs).files = (ofFiles ys).files := by
  apply files_eq_of_mem_iff
  rintro ⟨path, file⟩
  rw [mem_files_ofFiles, mem_files_ofFiles, h.filter_eq]
  intro x y hx hy
  simp only [decide_eq_true_eq] at hx hy
  exact .inl (hx.trans hy.symm)

end KeepsOrder

/-! ## Catalogs that cannot be told apart -/

/-- The same files, and the same answers for names. -/
structure Indistinct (c d : Catalog) : Prop where
  files : c.files = d.files
  classes : ∀ text, c.class? text = d.class? text
  aliases : ∀ text, c.alias? text = d.alias? text

namespace Indistinct

variable {c d : Catalog}

theorem sameAnswers (h : Indistinct c d) : SameAnswers c d where
  names text := by rw [h.classes]
  params text := by rw [classParams, classParams, h.classes]
  values text := by rw [aliasValues, aliasValues, h.aliases]

theorem subparams_eq (h : Indistinct c d) (p : Param) : c.subparams p = d.subparams p := by
  rw [Catalog.subparams, Catalog.subparams, h.sameAnswers.params]

theorem failures_eq (h : Indistinct c d) : c.failures = d.failures := by
  rw [failures, failures, h.files]

theorem report_eq (h : Indistinct c d) : c.report = d.report := by
  funext withPrivate
  simp only [report, reportLines, failureLines, totalsLine, totals, failureCount, h.failures_eq,
    h.files]

theorem exportText_eq (h : Indistinct c d) : c.exportText = d.exportText := by
  funext withPrivate
  simp only [exportText, toJson, failureCount, h.failures_eq, h.files, h.sameAnswers.fileJson_eq]

end Indistinct

/-- Sequences of additions in which those that interfere come in the same order make catalogs that
give the same answers to every question, and of which the same is written in every format. -/
theorem ofFiles_rearranged (xs ys : List (String × FileDoc))
    (place : Fin xs.length ≃ Fin ys.length) (h : KeepsOrder xs ys place) :
    (ofFiles xs).files = (ofFiles ys).files ∧
    (∀ path, (ofFiles xs).file? path = (ofFiles ys).file? path) ∧
    (∀ text, (ofFiles xs).class? text = (ofFiles ys).class? text) ∧
    (∀ text, (ofFiles xs).alias? text = (ofFiles ys).alias? text) ∧
    (∀ text, (ofFiles xs).classParams text = (ofFiles ys).classParams text) ∧
    (∀ text, (ofFiles xs).aliasValues text = (ofFiles ys).aliasValues text) ∧
    (ofFiles xs).failures = (ofFiles ys).failures ∧
    (ofFiles xs).failureCount = (ofFiles ys).failureCount ∧
    (∀ p, (ofFiles xs).subparams p = (ofFiles ys).subparams p) ∧
    ∀ format withPrivate,
      (ofFiles xs).write format withPrivate = (ofFiles ys).write format withPrivate := by
  have alike : Indistinct (ofFiles xs) (ofFiles ys) :=
    ⟨h.files_eq, fun text => h.classNamed?_eq (nameAsked text),
      fun text => h.aliasNamed?_eq (nameAsked text)⟩
  have answers := alike.sameAnswers
  have found : ∀ path, (ofFiles xs).file? path = (ofFiles ys).file? path := by
    intro path
    rw [file?, file?, alike.files]
  have count : (ofFiles xs).failureCount = (ofFiles ys).failureCount := by
    rw [failureCount, failureCount, alike.failures_eq]
  refine ⟨alike.files, found, alike.classes, alike.aliases, answers.params, answers.values,
    alike.failures_eq, count, alike.subparams_eq, ?_⟩
  intro format withPrivate
  cases format with
  | report => exact congrFun alike.report_eq withPrivate
  | json => exact congrFun alike.exportText_eq withPrivate

theorem ofFiles_rearranged_replaced :
    let first : FileDoc := ⟨[], [⟨"x.A", none, true, false, "", []⟩], [], []⟩
    let second : FileDoc := ⟨[], [⟨"x.A", none, false, false, "", []⟩], [], []⟩
    let other : FileDoc := ⟨[], [], [⟨"x.Kind", [⟨"k", ""⟩]⟩], []⟩
    let xs := [("b.lua", first), ("a.lua", other), ("b.lua", second)]
    let ys := [("a.lua", other), ("b.lua", first), ("b.lua", second)]
    KeepsOrder xs ys (Equiv.swap (0 : Fin 3) 1) ∧
    (ofFiles xs).files = [("a.lua", other), ("b.lua", second)] ∧
    (ofFiles ys).files = [("a.lua", other), ("b.lua", second)] ∧
    (ofFiles xs).class? "nil|x.A" = (ofFiles ys).class? "nil|x.A" ∧
    (ofFiles xs).write .json false = (ofFiles ys).write .json false := by
  intro first second other xs ys
  have same : ∀ i : Fin 3, ys.get (Equiv.swap (0 : Fin 3) 1 i) = xs.get i
    | 0 | 1 | 2 => rfl
  have swapped : ∀ i j : Fin 3, i < j →
      Equiv.swap (0 : Fin 3) 1 i < Equiv.swap (0 : Fin 3) 1 j ∨ i = 0 ∧ j = 1 := by decide
  have apart : ¬Interfere ("b.lua", first) ("a.lua", other) := by
    simp [Interfere, first, other]
  have order : KeepsOrder xs ys (Equiv.swap (0 : Fin 3) 1) := by
    refine ⟨same, fun i j lt interfere => ?_⟩
    rcases swapped i j lt with kept | ⟨rfl, rfl⟩
    · exact kept
    · exact absurd interfere apart
  have files : (ofFiles ys).files = [("a.lua", other), ("b.lua", second)] := rfl
  obtain ⟨kept, -, classes, -, -, -, -, -, -, written⟩ := ofFiles_rearranged xs ys _ order
  exact ⟨order, kept.trans files, files, classes "nil|x.A", written .json false⟩

end Catalog
end Annodoc
