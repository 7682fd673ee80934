import Annodoc.Catalog.Export
import Mathlib.Data.List.Basic

/-!
# Expansion of classes below a parameter

The view of a parameter is grown on a stack of classes. The stack is left as it was found, so a
view depends only on what stands on the stack below it. On a way down the view every class is
expanded once at most, and a class stays closed for no other reason.
-/

namespace Annodoc
namespace Catalog

/-- The name of the class whose fields stand below a node: the node `t` shows the parameter `p`, and
what stands below it was not written there. -/
def expandedName? (c : Catalog) (p : Param) (t : ParamTree) : Option String :=
  if p.subparams.isEmpty && !t.subparams.isEmpty then (c.class? p.type.text).map ClassDoc.name
  else none

/-- A way down from the node `t`, which shows `p`, to the node `u`, which shows `q`, through nodes
below which the classes `names` are expanded, the nearest one first. -/
inductive Way (c : Catalog) (p : Param) (t : ParamTree) : List String → Param → ParamTree → Prop
  | here : Way c p t [] p t
  | down {names q u r v} : Way c p t names q u → (r, v) ∈ (c.subparams q).zip u.subparams →
      Way c p t ((c.expandedName? q u).toList ++ names) r v

variable {c : Catalog} {expanding names : List String} {p q r : Param} {t u v : ParamTree}
  {cls : ClassDoc}

/-! ## One node -/

/-- The parameters of a list are viewed each for itself. -/
theorem views_eq (c : Catalog) (expanding : List String) (ps : List Param) :
    (c.views expanding ps).1 = ps.map (c.paramTree expanding) := by
  induction ps with
  | nil => rw [views, List.map_nil]
  | cons p ps ih =>
    have restored : (c.view expanding p).2.val = expanding := (c.view expanding p).2.property
    rw [views, List.map_cons]
    dsimp only
    rw [restored, ih, paramTree]

theorem paramTree_head (c : Catalog) (expanding : List String) (p : Param) :
    (c.paramTree expanding p).name = p.name ∧ (c.paramTree expanding p).type = p.type.text ∧
      (c.paramTree expanding p).desc = p.desc ∧
      (c.paramTree expanding p).values = c.aliasValues p.type.text := by
  rw [paramTree, view]
  split
  · split
    · exact ⟨rfl, rfl, rfl, rfl⟩
    · split <;> exact ⟨rfl, rfl, rfl, rfl⟩
  · exact ⟨rfl, rfl, rfl, rfl⟩

theorem subparams_of_written (h : p.subparams ≠ []) :
    (c.paramTree expanding p).subparams = p.subparams.map (c.paramTree expanding) := by
  rw [paramTree, view, if_neg (by simpa using h)]
  exact views_eq c expanding p.subparams

theorem subparams_of_unknown (h : p.subparams = []) (unknown : c.class? p.type.text = none) :
    (c.paramTree expanding p).subparams = [] := by
  rw [paramTree, view, if_pos (by simp [h])]
  split
  · rfl
  · next found => simp [unknown] at found

theorem subparams_of_busy (h : p.subparams = []) (found : c.class? p.type.text = some cls)
    (busy : cls.name ∈ expanding) : (c.paramTree expanding p).subparams = [] := by
  rw [paramTree, view, if_pos (by simp [h])]
  split
  · rfl
  · next again =>
    obtain rfl := Option.some.inj (found.symm.trans again)
    rw [dif_pos busy]

theorem subparams_of_new (h : p.subparams = []) (found : c.class? p.type.text = some cls)
    (new : cls.name ∉ expanding) : (c.paramTree expanding p).subparams =
      (c.classParams p.type.text).map (c.paramTree (cls.name :: expanding)) := by
  rw [paramTree, view, if_pos (by simp [h])]
  split
  · next unknown => simp [found] at unknown
  · next again =>
    obtain rfl := Option.some.inj (found.symm.trans again)
    rw [dif_neg new]
    exact views_eq c _ _

/-! ## What a parameter resolves to -/

theorem subparams_written (h : p.subparams ≠ []) : c.subparams p = p.subparams := by
  simp [Catalog.subparams, h]

theorem subparams_resolved (h : p.subparams = []) : c.subparams p = c.classParams p.type.text := by
  simp [Catalog.subparams, h]

theorem classParams_of_class? {text : String} (found : c.class? text = some cls) :
    c.classParams text = if cls.isOpaque then [] else cls.publicParams := by
  rw [classParams, found]

theorem classParams_of_unknown {text : String} (unknown : c.class? text = none) :
    c.classParams text = [] := by
  rw [classParams, unknown]

/-- Where no class is in the way, what a parameter resolves to stands right below it. -/
theorem exists_stack_below (new : ∀ cls, p.subparams = [] → c.class? p.type.text = some cls →
    cls.name ∉ expanding) :
    ∃ stack, (c.paramTree expanding p).subparams = (c.subparams p).map (c.paramTree stack) := by
  by_cases written : p.subparams = []
  · rw [subparams_resolved written]
    cases found : c.class? p.type.text with
    | none =>
      refine ⟨expanding, ?_⟩
      rw [subparams_of_unknown written found, classParams_of_unknown found, List.map_nil]
    | some cls =>
      exact ⟨cls.name :: expanding, subparams_of_new written found (new cls written found)⟩
  · rw [subparams_written written]
    exact ⟨expanding, subparams_of_written written⟩

/-! ## Ways down -/

theorem mem_zip_map_iff {α β : Type} {f : α → β} {xs : List α} {x : α} {y : β} :
    (x, y) ∈ xs.zip (xs.map f) ↔ x ∈ xs ∧ y = f x := by
  induction xs with
  | nil => simp
  | cons a xs ih =>
    rw [List.map_cons, List.zip_cons_cons, List.mem_cons, ih, List.mem_cons, Prod.mk.injEq]
    constructor
    · rintro (⟨rfl, rfl⟩ | ⟨mem, rfl⟩)
      · exact ⟨.inl rfl, rfl⟩
      · exact ⟨.inr mem, rfl⟩
    · rintro ⟨rfl | mem, rfl⟩
      · exact .inl ⟨rfl, rfl⟩
      · exact .inr ⟨mem, rfl⟩

theorem expandedName?_of_written (h : q.subparams ≠ []) : c.expandedName? q t = none := by
  simp [expandedName?, h]

theorem expandedName?_of_class (h : q.subparams = []) (found : c.class? q.type.text = some cls)
    (below : t.subparams ≠ []) : c.expandedName? q t = some cls.name := by
  simp [expandedName?, h, found, below]

/-- One step down: a class that is expanded here was not on the stack, and is on it below. -/
theorem paramTree_of_mem_zip
    (h : (r, v) ∈ (c.subparams q).zip (c.paramTree expanding q).subparams) :
    v = c.paramTree ((c.expandedName? q (c.paramTree expanding q)).toList ++ expanding) r ∧
      ∀ n ∈ c.expandedName? q (c.paramTree expanding q), n ∉ expanding := by
  have below : (c.paramTree expanding q).subparams ≠ [] := by
    intro none
    rw [none, List.zip_nil_right] at h
    exact absurd h List.not_mem_nil
  by_cases written : q.subparams = []
  · cases found : c.class? q.type.text with
    | none => exact absurd (subparams_of_unknown written found) below
    | some cls =>
      by_cases busy : cls.name ∈ expanding
      · exact absurd (subparams_of_busy written found busy) below
      · rw [subparams_resolved written, subparams_of_new written found busy] at h
        rw [expandedName?_of_class written found below]
        exact ⟨(mem_zip_map_iff.mp h).2, fun n hn => Option.some.inj hn ▸ busy⟩
  · rw [subparams_written written, subparams_of_written written] at h
    rw [expandedName?_of_written written]
    exact ⟨(mem_zip_map_iff.mp h).2, by simp⟩

/-- The classes expanded on a way down are on the stack where it ends, each once, above those that
were there. -/
theorem Way.paramTree_eq (h : Way c p (c.paramTree expanding p) names q u) :
    u = c.paramTree (names ++ expanding) q ∧ names.Nodup ∧ ∀ n ∈ names, n ∉ expanding := by
  induction h with
  | here => exact ⟨rfl, .nil, by simp⟩
  | @down names q u r v _ mem ih =>
    -- The names so far are on the stack of this node, so what is expanded here is none of them.
    obtain ⟨rfl, nodup, apart⟩ := ih
    obtain ⟨below, new⟩ := paramTree_of_mem_zip mem
    cases name : c.expandedName? q (c.paramTree (names ++ expanding) q) with
    | none =>
      rw [name] at below
      exact ⟨below, nodup, apart⟩
    | some n =>
      rw [name] at below
      have fresh : n ∉ names ∧ n ∉ expanding := by simpa using new n name
      exact ⟨below, List.nodup_cons.mpr ⟨fresh.1, nodup⟩,
        List.forall_mem_cons.mpr ⟨fresh.2, apart⟩⟩

/-- Ways lead to all nodes: what stands below the end of one is the end of another. -/
theorem Way.exists_down (h : Way c p (c.paramTree expanding p) names q u) (hv : v ∈ u.subparams) :
    ∃ more r, Way c p (c.paramTree expanding p) (more ++ names) r v := by
  obtain ⟨rfl, -, -⟩ := h.paramTree_eq
  have new : ∀ cls, q.subparams = [] → c.class? q.type.text = some cls →
      cls.name ∉ names ++ expanding := by
    intro cls written found busy
    rw [subparams_of_busy written found busy] at hv
    exact absurd hv List.not_mem_nil
  obtain ⟨stack, below⟩ := exists_stack_below new
  obtain ⟨r, hr, rfl⟩ := List.mem_map.mp (below ▸ hv)
  have mem : (r, c.paramTree stack r) ∈
      (c.subparams q).zip (c.paramTree (names ++ expanding) q).subparams := by
    rw [below]
    exact mem_zip_map_iff.mpr ⟨hr, rfl⟩
  exact ⟨_, r, h.down mem⟩

/-- A class that is not on the way so far is expanded. -/
theorem Way.down_field (h : Way c p (c.paramTree expanding p) names q u)
    (written : q.subparams = []) (found : c.class? q.type.text = some cls)
    (new : cls.name ∉ names ++ expanding) (mem : r ∈ c.classParams q.type.text) :
    Way c p (c.paramTree expanding p) (cls.name :: names) r
      (c.paramTree (cls.name :: (names ++ expanding)) r) := by
  obtain ⟨rfl, -, -⟩ := h.paramTree_eq
  have below := subparams_of_new written found new
  have some_below : (c.paramTree (names ++ expanding) q).subparams ≠ [] := by
    rw [below]
    simpa using List.ne_nil_of_mem mem
  have step : (r, c.paramTree (cls.name :: (names ++ expanding)) r) ∈
      (c.subparams q).zip (c.paramTree (names ++ expanding) q).subparams := by
    rw [below, subparams_resolved written]
    exact mem_zip_map_iff.mpr ⟨mem, rfl⟩
  have way := h.down step
  rwa [expandedName?_of_class written found some_below] at way

/-- The stack is left as it was found, and the views of a list are those of its parameters alone.
On a way down no class is expanded twice, nor one that was on the stack. Each node shows its
parameter, and below it stand the views of the parts that were written; else those of the public
fields of the class that its type names, unless this is opaque or already expanded above; else
nothing. So the parts that a parameter of a function resolves to stand right below it. -/
theorem view_expands (c : Catalog) (expanding : List String) :
    (∀ ps : List Param, (c.views expanding ps).2.val = expanding ∧
      (c.views expanding ps).1 = ps.map fun p => (c.view expanding p).1) ∧
    (∀ p, (c.view expanding p).2.val = expanding ∧
      ∀ names q u, Way c p (c.view expanding p).1 names q u →
        names.Nodup ∧ (∀ n ∈ names, n ∉ expanding) ∧
        (∀ v ∈ u.subparams, ∃ more r, Way c p (c.view expanding p).1 (more ++ names) r v) ∧
        u.name = q.name ∧ u.type = q.type.text ∧ u.desc = q.desc ∧
        u.values = c.aliasValues q.type.text ∧
        (q.subparams ≠ [] →
          u.subparams = q.subparams.map fun r => (c.view (names ++ expanding) r).1) ∧
        (∀ cls, q.subparams = [] → c.class? q.type.text = some cls → cls.isOpaque = false →
          cls.name ∉ names → cls.name ∉ expanding →
          u.subparams = cls.publicParams.map fun r =>
            (c.view (cls.name :: (names ++ expanding)) r).1) ∧
        (q.subparams = [] → (∀ cls, c.class? q.type.text = some cls → cls.isOpaque = true ∨
          cls.name ∈ names ∨ cls.name ∈ expanding) → u.subparams = [])) ∧
    ∀ p, (c.view [] p).1.subparams.map (fun t => (t.name, t.type, t.desc)) =
      (c.subparams p).map fun q => (q.name, q.type.text, q.desc) := by
  refine ⟨fun ps => ⟨(c.views expanding ps).2.property, views_eq c expanding ps⟩,
    fun p => ⟨(c.view expanding p).2.property, fun names q u way => ?_⟩, fun p => ?_⟩
  · obtain ⟨rfl, nodup, apart⟩ := Way.paramTree_eq way
    obtain ⟨name, type, desc, values⟩ := paramTree_head c (names ++ expanding) q
    refine ⟨nodup, apart, fun v => Way.exists_down way, name, type, desc, values,
      subparams_of_written, ?_, ?_⟩
    · intro cls written found shut here there
      have new : cls.name ∉ names ++ expanding := by simp [here, there]
      rw [subparams_of_new written found new, classParams_of_class? found, shut]
      rfl
    · intro written closed
      cases found : c.class? q.type.text with
      | none => exact subparams_of_unknown written found
      | some cls =>
        by_cases busy : cls.name ∈ names ++ expanding
        · exact subparams_of_busy written found busy
        · have shut : cls.isOpaque = true :=
            (closed cls found).resolve_right (by simpa using busy)
          rw [subparams_of_new written found busy, classParams_of_class? found, shut]
          rfl
  · have free : ∀ cls, p.subparams = [] → c.class? p.type.text = some cls → cls.name ∉ [] := by
      simp
    obtain ⟨stack, below⟩ := exists_stack_below free
    rw [← paramTree, below, List.map_map]
    refine List.map_congr_left fun q _ => ?_
    obtain ⟨name, type, desc, -⟩ := paramTree_head c stack q
    simp only [Function.comp_apply, name, type, desc]

theorem view_expands_mutual :
    let viaA : ClassDoc := ⟨"x.A", none, false, false, "",
      [⟨.named "b" none, .named ["x", "B"] false, ""⟩, ⟨.named "s" none, .keyword .any, ""⟩]⟩
    let viaB : ClassDoc := ⟨"x.B", none, false, false, "",
      [⟨.named "a" none, .union [.keyword .nil, .named ["x", "A"] false], ""⟩]⟩
    let c : Catalog := ⟨[], [viaA, viaB], [], .nil⟩
    let p : Param := ⟨"opts", .named ["x", "A"] false, "", []⟩
    (c.view [] p).1.subparams = (viaA.publicParams.map fun r => (c.view ["x.A"] r).1) ∧
    ∃ q u, Way c p (c.view [] p).1 ["x.B", "x.A"] q u ∧ u.type = "nil|x.A" ∧ u.subparams = [] := by
  intro viaA viaB c p
  let b : Param := ⟨"b", .named ["x", "B"] false, "", []⟩
  let a : Param := ⟨"a", .union [.keyword .nil, .named ["x", "A"] false], "", []⟩
  have asked : nameAsked p.type.text = "x.A" ∧ nameAsked b.type.text = "x.B" ∧
      nameAsked a.type.text = "x.A" := by decide
  have inA : c.class? p.type.text = some viaA := by simp [class?, asked.1, c, viaA]
  have inB : c.class? b.type.text = some viaB := by simp [class?, asked.2.1, c, viaA, viaB]
  have again : c.class? a.type.text = some viaA := by simp [class?, asked.2.2, c, viaA]
  have memB : b ∈ c.classParams p.type.text := by
    rw [classParams_of_class? inA]
    simp [ClassDoc.publicParams, Field.publicParam?, viaA, b]
  have memA : a ∈ c.classParams b.type.text := by
    rw [classParams_of_class? inB]
    simp [ClassDoc.publicParams, Field.publicParam?, viaB, a]
  have first : Way c p (c.view [] p).1 ["x.A"] b (c.paramTree ["x.A"] b) :=
    Way.down_field .here rfl inA List.not_mem_nil memB
  have second : Way c p (c.view [] p).1 ["x.B", "x.A"] a (c.paramTree ["x.B", "x.A"] a) :=
    Way.down_field first rfl inB (by decide) memA
  obtain ⟨-, -, -, -, -, -, -, -, fields, -⟩ := ((view_expands c []).2.1 p).2 _ _ _ .here
  obtain ⟨-, -, -, -, type, -, -, -, -, closed⟩ := ((view_expands c []).2.1 p).2 _ _ _ second
  have busy : ∀ cls, c.class? a.type.text = some cls →
      cls.isOpaque = true ∨ cls.name ∈ ["x.B", "x.A"] ∨ cls.name ∈ [] := by
    intro cls found
    obtain rfl := Option.some.inj (again.symm.trans found)
    exact .inr (.inl (by simp [viaA]))
  exact ⟨fields viaA rfl inA rfl List.not_mem_nil List.not_mem_nil, a, _, second,
    type.trans (by decide), closed rfl busy⟩

end Catalog
end Annodoc
