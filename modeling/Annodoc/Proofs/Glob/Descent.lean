import Annodoc.Project
import Annodoc.Proofs.Glob.Below
import Annodoc.Proofs.Glob.Escaped
import Annodoc.Proofs.Project.Loading
import Mathlib.Data.List.Nodup

/-!
# The walk of a directory

The pattern for a directory goes along the escaped steps of its path and then below it. The walk along
the steps comes to that directory alone, whatever characters its path has; below it, the pattern finds
each chain of names that ends in the extension.
-/

namespace Annodoc

namespace Glob
open Grammar (bind_eq_ok_iff)
variable {fs : FileSystem} {path step name : String} {steps : List String} {rest : List Pattern}
  {p : Pattern} {way next goal : FileSystem.Way} {cs ds : List Char}

/-! ## The text of the pattern -/

/-- An extension that has no special characters and is part of one name. -/
def IsPlainExtension (extension : String) : Prop :=
  ∀ c ∈ extension.toList, ¬ IsSpecial c ∧ c ≠ '/'

/-- The pattern for the names that end in a dot and the extension. -/
def sourcePattern (extension : String) : Pattern := .sequence :: Pattern.just ('.' :: extension.toList)

theorem splitSlash_cons {c : Char} {first : List Char} {parts : List (List Char)}
    (noSlash : c ≠ '/') (split : Path.splitSlash cs = first :: parts) :
    Path.splitSlash (c :: cs) = (c :: first) :: parts := by
  rw [Path.splitSlash, if_neg noSlash, split]

theorem escapedChar_slash : escapedChar '/' = ['/'] := by decide

theorem splitSlash_escaped (cs : List Char) : Path.splitSlash (cs.flatMap escapedChar) =
    (Path.splitSlash cs).map fun part => part.flatMap escapedChar := by
  induction cs with
  | nil => rfl
  | cons c cs ih =>
    rw [List.flatMap_cons]
    by_cases slash : c = '/'
    · subst slash
      rw [escapedChar_slash, List.singleton_append, Path.splitSlash, if_pos rfl, ih,
        Path.splitSlash, if_pos rfl]
      rfl
    · obtain ⟨first, parts, split⟩ := List.exists_cons_of_ne_nil (Path.splitSlash_ne_nil cs)
      rw [split, List.map_cons] at ih
      rw [splitSlash_cons slash split, List.map_cons, List.flatMap_cons, escapedChar]
      split_ifs
      · have shut := splitSlash_cons (c := ']') (by decide) ih
        exact splitSlash_cons (c := '[') (by decide) (splitSlash_cons slash shut)
      · exact splitSlash_cons slash ih

/-- Each step is escaped on its own. -/
theorem steps_escape (path : String) : Path.steps (escape path) = (Path.steps path).map escape := by
  rw [Path.steps, toList_escape, splitSlash_escaped, Path.steps, List.map_map, List.map_map]
  apply List.map_congr_left
  intro part _
  rw [Function.comp_apply, Function.comp_apply, ← String.toList_inj, toList_escape,
    String.toList_ofList, String.toList_ofList]

/-- Escaping keeps the slashes at the end apart. -/
theorem trimmed_escape (path : String) : Path.trimmed (escape path) = escape (Path.trimmed path) := by
  have all (cs : List Char) : (cs.flatMap escapedChar).rdropWhile (· = '/') =
      (cs.rdropWhile (· = '/')).flatMap escapedChar := by
    induction cs using List.reverseRecOn with
    | nil => rfl
    | append_singleton cs c ih =>
      rw [List.flatMap_append, List.flatMap_singleton, List.rdropWhile_concat]
      by_cases slash : c = '/'
      · subst slash
        rw [escapedChar_slash, List.rdropWhile_concat]
        simpa using ih
      · obtain ⟨init, d, ended, noSlash⟩ : ∃ init d, escapedChar c = init ++ [d] ∧ d ≠ '/' := by
          rw [escapedChar]
          split_ifs
          · exact ⟨['[', c], ']', rfl, by decide⟩
          · exact ⟨[], c, rfl, slash⟩
        rw [ended, ← List.append_assoc, List.rdropWhile_concat]
        simp [slash, noSlash, ended]
  rw [← String.toList_inj, toList_escape, Path.trimmed, Path.trimmed, String.toList_ofList,
    String.toList_ofList, toList_escape, all]

theorem directoryPattern_eq (options : SearchOptions) (path : String) :
    options.directoryPattern path =
      escape (Path.trimmed path) ++ "/" ++ "**" ++ "/" ++ ("*." ++ options.extension) := by
  rw [← trimmed_escape, ← String.toList_inj]
  simp [SearchOptions.directoryPattern, Path.trimmed, List.rdropWhile]

theorem toList_directoryPattern (options : SearchOptions) (path : String) :
    (options.directoryPattern path).toList = (Path.trimmed path).toList.flatMap escapedChar ++
      '/' :: '*' :: '*' :: '/' :: '*' :: '.' :: options.extension.toList := by
  rw [directoryPattern_eq, ← toList_escape]
  simp

variable {options : SearchOptions}

theorem steps_directoryPattern (plain : IsPlainExtension options.extension) (path : String) :
    Path.steps (options.directoryPattern path) =
      (Path.steps (Path.trimmed path)).map escape ++ ["**", "*." ++ options.extension] := by
  have noSlash : '/' ∉ ("*." ++ options.extension).toList := by
    have plain : '/' ∉ options.extension.toList := fun mem => (plain '/' mem).2 rfl
    simpa using plain
  rw [directoryPattern_eq, Path.steps_concat noSlash, Path.steps_concat (by decide), steps_escape,
    List.append_assoc]
  rfl

theorem escape_eq_empty_iff : escape step = "" ↔ step = "" := by
  rw [← String.toList_eq_nil_iff, toList_escape, List.flatMap_eq_nil_iff,
    ← String.toList_eq_nil_iff]
  constructor
  · intro none
    rw [List.eq_nil_iff_forall_not_mem]
    intro c hc
    have empty := none c hc
    rw [escapedChar] at empty
    split_ifs at empty
  · rintro none
    simp [none]

theorem isAbsolute_directoryPattern (plain : IsPlainExtension options.extension) (given : path ≠ "") :
    Path.isAbsolute (options.directoryPattern path) = Path.isAbsolute path := by
  have text : options.directoryPattern path ≠ "" := by
    rw [← String.toList_eq_nil_iff.ne, toList_directoryPattern]
    simp
  have head : (Path.steps (options.directoryPattern path)).head? = some "" ↔
      (Path.steps path).head? = some "" := by
    obtain ⟨k, split⟩ := Path.exists_steps_trimmed path
    obtain ⟨first, more, shape⟩ := List.exists_cons_of_ne_nil (Path.steps_ne_nil (Path.trimmed path))
    rw [steps_directoryPattern plain, split, shape]
    simp [escape_eq_empty_iff]
  rw [Path.head_steps_eq_empty_iff, Path.head_steps_eq_empty_iff] at head
  simp only [text, given, false_or] at head
  exact Bool.eq_iff_iff.mpr head

theorem steps_drop_one (absolute : Path.isAbsolute path = true) :
    Path.steps (String.ofList (path.toList.drop 1)) = (Path.steps path).tail := by
  rw [Path.isAbsolute, decide_eq_true_iff] at absolute
  obtain ⟨cs, split⟩ := List.head?_eq_some_iff.mp absolute
  rw [Path.steps, Path.steps, split, Path.splitSlash, if_pos rfl]
  simp

/-- The components of the pattern are the escaped steps of a walk along the path, and two more. -/
theorem componentTexts_directoryPattern (plain : IsPlainExtension options.extension)
    (given : path ≠ "") : componentTexts (options.directoryPattern path) =
      (Path.walkSteps path).map escape ++ ["**", "*." ++ options.extension] := by
  have parts : Path.steps (if Path.isAbsolute (options.directoryPattern path) then
      String.ofList ((options.directoryPattern path).toList.drop 1)
      else options.directoryPattern path) =
        (Path.walkSteps path).map escape ++ ["**", "*." ++ options.extension] := by
    have absolute := isAbsolute_directoryPattern plain given
    rw [Path.walkSteps, absolute]
    split
    · next root =>
      rw [steps_drop_one (absolute.trans root), steps_directoryPattern plain, List.map_tail,
        List.tail_append_of_ne_nil]
      simp [Path.steps_ne_nil]
    · exact steps_directoryPattern plain path
  rw [componentTexts, parts, if_neg, if_neg]
  · simp
  · intro one
    have length := congrArg List.length one
    simp at length

theorem IsPlainExtension.dotted {extension : String} (plain : IsPlainExtension extension) :
    ∀ c ∈ '.' :: extension.toList, ¬ IsSpecial c := by
  intro c hc
  rcases List.mem_cons.mp hc with rfl | hc
  · decide
  · exact (plain c hc).1

theorem parse_directoryPattern (plain : IsPlainExtension options.extension) (path : String) :
    ∃ p, Pattern.parse (options.directoryPattern path) = .ok p := by
  have behind (position : Nat) (before : Option Char) : tokens position before
      ('/' :: '*' :: '*' :: '/' :: '*' :: '.' :: options.extension.toList) =
        .ok (.char '/' :: .components :: sourcePattern options.extension) := by
    apply tokens_plain (by decide)
    rw [tokens]
    simp only [tokens_star plain.dotted]
    rfl
  rw [Pattern.parse, toList_directoryPattern]
  exact ⟨_, tokens_escaped behind _ _⟩

/-- The pattern does not end in a slash. -/
theorem getLast?_directoryPattern (plain : IsPlainExtension options.extension) (path : String) :
    (options.directoryPattern path).toList.getLast? ≠ some '/' := by
  have spelled : (options.directoryPattern path).toList =
      ((Path.trimmed path).toList.flatMap escapedChar ++ ['/', '*', '*', '/', '*']) ++
        '.' :: options.extension.toList := by
    rw [toList_directoryPattern, List.append_assoc]
    rfl
  rw [spelled, List.getLast?_append_of_ne_nil _ (by simp)]
  intro last
  rcases List.mem_cons.mp (List.mem_of_getLast? last) with dot | mem
  · exact absurd dot (by decide)
  · exact (plain '/' mem).2 rfl

/-! ## The walk along the steps -/

theorem walk_literal (literal : p.literal? = some name)
    (found : (if name = "." ∨ name = ".." then fs.isDir path
      else fs.isThere (extend path name)) = true) :
    walk fs (p :: rest) path = walk fs rest (extend path name) := by
  rw [walk.eq_def]
  simp only [literal, found]
  rfl

theorem walk_entries (literal : p.literal? = none) (single : p.isComponents = false) :
    walk fs (p :: rest) path = (dots fs p path ++ (((entriesAt fs path).map Prod.fst).filter
      fun name => p.accepts name.toList).map (extend path)).flatMap (walk fs rest) := by
  rw [walk.eq_def]
  simp only [literal, single]
  rfl

theorem entriesAt_of_locate (located : fs.locate path = .ok way) :
    entriesAt fs path = (fs.nodeAt way).entries := by
  rw [entriesAt, FileSystem.node?_of_locate located]
  rfl

theorem accepts_just_name (step name : String) :
    (Pattern.just step.toList).accepts name.toList = decide (name = step) := by
  rw [Bool.eq_iff_iff, Pattern.accepts_just_iff, String.toList_inj, decide_eq_true_iff]

/-- No step with a special character is a dot, or two, or empty. -/
theorem named_of_special {c : Char} (mem : c ∈ step.toList) (special : IsSpecial c) :
    step ≠ "" ∧ step ≠ "." ∧ step ≠ ".." := by
  have noDot : c ≠ '.' := by
    rintro rfl
    exact absurd special (by decide)
  refine ⟨?_, ?_, ?_⟩ <;> rintro rfl <;> simp [noDot] at mem

theorem dots_just (current : step ≠ ".") (parent : step ≠ "..") :
    dots fs (Pattern.just step.toList) path = [] := by
  rw [dots]
  split
  · simp [accepts_just_name, current.symm, parent.symm]
  · rfl

/-- The escaped name of an entry stands for that entry alone. -/
theorem filter_names_just (tree : fs.root.WellFormed) (located : fs.locate path = .ok way)
    (entered : fs.enter way step = .ok next) (named : step ≠ "" ∧ step ≠ "." ∧ step ≠ "..") :
    ((entriesAt fs path).map Prod.fst).filter
      (fun name => (Pattern.just step.toList).accepts name.toList) = [step] := by
  have tree' := FileSystem.wellFormed_of_locate tree located
  rw [entriesAt_of_locate located]
  cases FileSystem.enter_eq_ok_iff.mp entered with
  | stay _ still => simp [named] at still
  | up => exact absurd rfl named.2.2
  | down dir _ child =>
    rw [dir] at tree' ⊢
    have distinct := (tree' [] _ rfl).1
    have entry := List.mem_map_of_mem (f := Prod.fst) ((Node.child?_eq_some_iff distinct).mp child)
    simp only [accepts_just_name, Node.entries]
    rw [List.filter_eq, List.count_eq_one_of_mem distinct entry]
    rfl

/-- A walk takes the escaped text of a step as that step, be it a literal or not. -/
theorem walk_just_cons (tree : fs.root.WellFormed) (h : fs.Walks path way (step :: steps) goal) :
    walk fs (Pattern.just step.toList :: rest) path = walk fs rest (extend path step) := by
  obtain ⟨next, entered, there⟩ := h.advance
  by_cases plain : ∀ c ∈ step.toList, ¬ IsSpecial c
  · have literal := Pattern.literal?_just_of_plain plain
    rw [String.ofList_toList] at literal
    apply walk_literal literal
    split
    · obtain ⟨es, dir⟩ := FileSystem.exists_dir_of_enter entered
      exact FileSystem.isDir_of_locate h.located dir
    · exact FileSystem.isThere_of_locate there.located
  -- a special character makes the step the name of an entry, which is looked for
  · push Not at plain
    obtain ⟨c, mem, special⟩ := plain
    have named := named_of_special mem special
    rw [walk_entries (Pattern.literal?_just_of_special mem special) Pattern.isComponents_just,
      dots_just named.2.1 named.2.2, filter_names_just tree h.located entered named]
    simp

/-- The walk along the escaped steps comes to one path, from which it goes on. -/
theorem walk_just (tree : fs.root.WellFormed) (h : fs.Walks path way steps goal) :
    walk fs (steps.map (fun step => Pattern.just step.toList) ++ rest) path =
      walk fs rest (steps.foldl extend path) := by
  induction steps generalizing path way with
  | nil => rfl
  | cons step steps ih =>
    obtain ⟨next, -, there⟩ := h.advance
    rw [List.map_cons, List.cons_append, walk_just_cons tree h, ih there]
    rfl

/-! ## The walk below -/

/-- What the last component finds below a directory. -/
theorem walk_below (fs : FileSystem) (p : Pattern) (path : String) :
    walk fs [[.components], p] path =
      ((pathsBelow fs path).filter fun (name, _) => p.accepts name.toList).map Prod.snd := by
  have literal : Pattern.literal? [.components] = none := rfl
  have many : Pattern.isComponents [.components] = true := rfl
  have found (xs : List (String × String)) :
      (xs.flatMap fun (_, next) => walk fs [] next) = xs.map Prod.snd := by
    simp only [walk]
    exact List.map_eq_flatMap.symm
  rw [walk.eq_def]
  simp only [literal, many]
  exact found _

theorem collapse_just (steps : List String) (p : Pattern) (single : p.isComponents = false) :
    collapse (steps.map (fun step => Pattern.just step.toList) ++ [[.components], p]) =
      steps.map (fun step => Pattern.just step.toList) ++ [[.components], p] := by
  induction steps with
  | nil => simp [collapse, single]
  | cons step steps ih =>
    rw [List.map_cons, List.cons_append, collapse, Pattern.isComponents_just, ih]
    simp

/-- A chain of names from a directory whose last name ends in a dot and the extension. -/
def EndsIn (extension : String) (names : List String) : Prop :=
  ∃ name, names.getLast? = some name ∧ '.' :: extension.toList <:+ name.toList

theorem parse_sourcePattern {extension : String} (plain : IsPlainExtension extension) :
    Pattern.parse ("*." ++ extension) = .ok (sourcePattern extension) := by
  have spelled : ("*." ++ extension).toList = '*' :: '.' :: extension.toList := by simp
  rw [Pattern.parse, spelled]
  exact tokens_star plain.dotted 0 none

/-- The components are patterns: one for each step, then any chain of names, then a source. -/
theorem parse_components (plain : IsPlainExtension options.extension) (given : path ≠ "") :
    (componentTexts (options.directoryPattern path)).mapM Pattern.parse =
      .ok ((Path.walkSteps path).map (fun step => Pattern.just step.toList) ++
        [[.components], sourcePattern options.extension]) := by
  have two : List.Forall₂ (fun text p => Pattern.parse text = .ok p)
      ["**", "*." ++ options.extension] [[.components], sourcePattern options.extension] :=
    .cons (by decide +kernel) (.cons (parse_sourcePattern plain) .nil)
  rw [componentTexts_directoryPattern plain given, mapM_eq_ok_iff]
  refine List.rel_append ?_ two
  rw [List.forall₂_map_left_iff, List.forall₂_map_right_iff, List.forall₂_same]
  exact fun step _ => parse_escape step

/-- The pattern for a directory finds what lies below it and ends in the extension, and nothing else
that the system opens. -/
theorem exists_paths_directoryPattern (options : SearchOptions) (tree : fs.root.WellFormed)
    (plain : IsPlainExtension options.extension)
    (h : fs.Walks (Path.walkStart path) way (Path.walkSteps path) goal) (given : path ≠ "") :
    ∃ found, paths fs (options.directoryPattern path) = .ok found ∧
      ∀ q, q.utf8ByteSize ≤ FileSystem.pathLimit → (q ∈ found ↔
        ∃ names, EndsIn options.extension names ∧ ((fs.nodeAt goal).at? names).isSome ∧
          names.foldl extend (Path.walked path) = q) := by
  have tree' := FileSystem.wellFormed_of_locate tree h.foldl.located
  obtain ⟨whole, parsed⟩ := parse_directoryPattern plain path
  have single : (sourcePattern options.extension).isComponents = false := by
    simp [sourcePattern, Pattern.isComponents]
  have startsAt : (if Path.isAbsolute (options.directoryPattern path) then "/" else ".") =
      Path.walkStart path := by
    rw [isAbsolute_directoryPattern plain given, Path.walkStart]
  refine ⟨_, bind_eq_ok_iff.mpr ⟨whole, parsed,
    bind_eq_ok_iff.mpr ⟨_, parse_components plain given, rfl⟩⟩, ?_⟩
  intro q short
  rw [if_neg (getLast?_directoryPattern plain path), collapse_just _ _ single, startsAt,
    walk_just tree h, walk_below, List.mem_map]
  constructor
  · rintro ⟨⟨name, _⟩, mem, rfl⟩
    obtain ⟨mem, accepted⟩ := List.mem_filter.mp mem
    obtain ⟨names, there, last, spelled⟩ :=
      (FileSystem.mem_pathsBelow_iff h.foldl tree' short).mp mem
    exact ⟨names, ⟨name, last, Pattern.accepts_star_iff.mp accepted⟩, there, spelled⟩
  · rintro ⟨names, ⟨name, last, ends⟩, there, spelled⟩
    refine ⟨(name, q), List.mem_filter.mpr ⟨?_, Pattern.accepts_star_iff.mpr ends⟩, rfl⟩
    exact (FileSystem.mem_pathsBelow_iff h.foldl tree' short).mpr ⟨names, there, last, spelled⟩

end Glob
end Annodoc
