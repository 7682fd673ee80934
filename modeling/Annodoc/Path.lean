/-!
# Paths

Paths as they are written, their components, and the order of paths by components.
-/

namespace Annodoc.Path

/-- The parts of a text between slashes; there is one part more than slashes. -/
def splitSlash : List Char → List (List Char)
  | [] => [[]]
  | c :: cs =>
    if c = '/' then [] :: splitSlash cs else
      match splitSlash cs with
      | [] => [[c]]
      | part :: parts => (c :: part) :: parts

/-- The steps that a path takes from where it starts. An empty step leads nowhere else. -/
def steps (path : String) : List String := (splitSlash path.toList).map String.ofList

def isAbsolute (path : String) : Bool := path.toList.head? = some '/'

/-- A path followed by one more step. -/
def join (path step : String) : String :=
  if path = "" ∨ path.toList.getLast? = some '/' then path ++ step else path ++ "/" ++ step

inductive Component where
  | root
  | current
  | parent
  | name (text : String)
  deriving DecidableEq, Repr

namespace Component

/-- The component of a step behind the start of a path. -/
def ofStep? : String → Option Component
  | "" => none
  | "." => none
  | ".." => some .parent
  | step => some (.name step)

def rank : Component → Nat
  | .root => 0
  | .current => 1
  | .parent => 2
  | .name _ => 3

def text : Component → String
  | .name text => text
  | _ => ""

/-- The root comes first, then the two dots, then names in the order of their characters. -/
def compare : Component → Component → Ordering := compareLex (compareOn rank) (compareOn text)

instance : Std.TransCmp compare := inferInstanceAs (Std.TransCmp (compareLex _ _))

instance : Std.LawfulEqCmp compare where
  eq_of_compare {a b} h := by
    simp only [compare, compareLex_eq_eq, compareOn] at h
    obtain ⟨hr, ht⟩ := h
    have hr := Std.LawfulEqCmp.eq_of_compare hr
    have ht := Std.LawfulEqCmp.eq_of_compare ht
    cases a <;> cases b <;> simp_all [rank, text]

end Component

/-- The components of a path. A leading dot is one; other dots, and empty steps, are none. -/
def components (path : String) : List Component :=
  match isAbsolute path, steps path with
  | true, parts => .root :: parts.filterMap Component.ofStep?
  | false, "." :: parts => .current :: parts.filterMap Component.ofStep?
  | false, parts => parts.filterMap Component.ofStep?

/-- Component by component; a list comes before those that continue it. -/
def compareComponents : List Component → List Component → Ordering :=
  List.compareLex Component.compare

instance : Std.TransCmp compareComponents :=
  inferInstanceAs (Std.TransCmp (List.compareLex Component.compare))

/-- Paths in the order of their components. -/
def compare (p q : String) : Ordering :=
  compareComponents (components p) (components q)

instance : Std.TransCmp compare where
  eq_swap {p q} := Std.OrientedCmp.eq_swap (a := components p) (b := components q)
  isLE_trans {p q r} hpq hqr :=
    Std.TransCmp.isLE_trans (a := components p) (b := components q) (c := components r) hpq hqr

/-- A path with its components, for work that looks at them often. -/
structure Split where
  path : String
  components : List Component
  components_eq : components = Path.components path

def split (path : String) : Split := ⟨path, components path, rfl⟩

/-- Split paths in the order of paths. -/
def Split.compare (p q : Split) : Ordering := compareComponents p.components q.components

theorem Split.compare_eq (p q : Split) : p.compare q = Path.compare p.path q.path := by
  rw [Split.compare, Path.compare, p.components_eq, q.components_eq]

/-- Whether a path is the working directory, spelled with dots. -/
def isCurrent (path : String) : Bool := components path = [.current]

end Annodoc.Path
