import Annodoc.Catalog.Basic

/-!
# Parameters in full

A parameter with everything that its type names: below it stand its written parts, or the fields
of its class, and so on. A class is not expanded again inside itself, so the view is finite.
-/

namespace Annodoc

structure ParamTree where
  name : String
  type : String
  desc : String
  subparams : List ParamTree
  values : List Choice
  deriving Repr

namespace Catalog

/-- How many of the classes are not among those being expanded. -/
def unexpanded (c : Catalog) (expanding : List String) : Nat :=
  c.classes.countP fun cls => cls.name ∉ expanding

theorem countP_lt {α : Type} {p q : α → Bool} {l : List α} {a : α}
    (imp : ∀ x, p x = true → q x = true) (mem : a ∈ l) (hq : q a = true) (hp : p a = false) :
    l.countP p < l.countP q := by
  induction l with
  | nil => simp at mem
  | cons x l ih =>
    have le : l.countP p ≤ l.countP q := List.countP_mono_left fun x _ => imp x
    rcases List.mem_cons.1 mem with rfl | mem
    · simp only [List.countP_cons, hq, hp]
      simp
      omega
    · have := ih mem
      simp only [List.countP_cons]
      by_cases h : p x = true
      · simp only [h, imp x h, if_true]
        omega
      · simp only [h, Bool.false_eq_true, if_false]
        omega

theorem unexpanded_lt {c : Catalog} {expanding : List String} {text : String} {cls : ClassDoc}
    (found : c.class? text = some cls) (new : cls.name ∉ expanding) :
    c.unexpanded (cls.name :: expanding) < c.unexpanded expanding :=
  countP_lt (a := cls) (fun x => by simp +contextual) (List.mem_of_find?_eq_some found)
    (by simpa using new) (by simp)

/-- The stack of the classes being expanded, when it is again as it was found. -/
abbrev Restored (expanding : List String) := { stack : List String // stack = expanding }

mutual

/-- The view of a parameter inside the classes on the stack `expanding`, and the stack after it. A
class stands on the stack while its fields are viewed. -/
def view (c : Catalog) (expanding : List String) (p : Param) : ParamTree × Restored expanding :=
  let tree (below : List ParamTree) : ParamTree :=
    ⟨p.name, p.type.text, p.desc, below, c.aliasValues p.type.text⟩
  if p.subparams.isEmpty then
    match _ : c.class? p.type.text with
    | none => (tree [], ⟨expanding, rfl⟩)
    | some cls =>
      if _ : cls.name ∈ expanding then (tree [], ⟨expanding, rfl⟩)
      else
        let (below, stack) := views c (cls.name :: expanding) (c.classParams p.type.text)
        (tree below, ⟨stack.val.tail, by rw [stack.property, List.tail_cons]⟩)
  else
    let (below, stack) := views c expanding p.subparams
    (tree below, stack)
termination_by (c.unexpanded expanding, sizeOf p)
decreasing_by
  · exact Prod.Lex.left _ _ (unexpanded_lt ‹c.class? _ = some _› ‹_›)
  · cases p
    exact Prod.Lex.right _ (by simp only [Param.mk.sizeOf_spec]; omega)

/-- The views of parameters, one after the other on the same stack. -/
def views (c : Catalog) (expanding : List String) (ps : List Param) :
    List ParamTree × Restored expanding :=
  match ps with
  | [] => ([], ⟨expanding, rfl⟩)
  | p :: ps =>
    let (tree, stack) := view c expanding p
    let (trees, after) := views c stack.val ps
    (tree :: trees, ⟨after.val, after.property.trans stack.property⟩)
termination_by (c.unexpanded expanding, sizeOf ps)
decreasing_by
  · exact Prod.Lex.right _ (by rw [List.cons.sizeOf_spec]; omega)
  · rw [stack.property]
    exact Prod.Lex.right _ (by rw [List.cons.sizeOf_spec]; omega)

end

/-- What the view of a parameter shows. -/
def paramTree (c : Catalog) (expanding : List String) (p : Param) : ParamTree :=
  (c.view expanding p).1

end Catalog
end Annodoc
