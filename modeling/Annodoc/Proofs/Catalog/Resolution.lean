import Annodoc.Proofs.Catalog.Expansion
import Annodoc.Proofs.Catalog.Lookup
import Annodoc.Proofs.Comment.TagLines
import Annodoc.Proofs.Json.Members

/-!
# Resolution across files

A comment line that gives a parameter a dotted name finds the class, and the alias, that was
declared last under this name in any of the files. The link goes through text: the name is read as
a type, an optional place puts `nil` before it, and the catalog is asked with the text of the type.
-/

namespace Annodoc
open Grammar Text LuaType Json

namespace Comment

/-- How a line gives a place the type of a dotted name: as it is, for an optional place, or with
`nil` as another member. -/
inductive Spelling where
  | plain
  | optional
  | orNil

/-- What stands right behind the name of the place. -/
def Spelling.mark : Spelling → String
  | .optional => "?"
  | _ => ""

def Spelling.typeText (s : Spelling) (dotted : String) : String :=
  match s with
  | .orNil => "nil|" ++ dotted
  | _ => dotted

/-- The end of the line, or a blank and a description that does not begin with another member. -/
structure EndsType (after : List Char) : Prop where
  head : ∀ c ∈ after.head?, isBlank c = true
  noMember : mark? '|' after = none

/-- The text is a name that `Fit` allows, then the dotted name in one of its spellings. -/
def AsksFor (Fit : String → Prop) (dotted : String) (text : List Char) : Prop :=
  ∃ (s : Spelling) (before gap after : List Char) (name : String),
    text = before ++ (name.toList ++ (s.mark.toList ++ (gap ++
      ((s.typeText dotted).toList ++ after)))) ∧
    Blanks before ∧ Fit name ∧ Blanks gap ∧ gap ≠ [] ∧ EndsType after

/-- The type that a spelling is read as, before the mark of the place counts. -/
def Spelling.written (s : Spelling) (parts : List String) : LuaType :=
  match s with
  | .orNil => .union [.keyword .nil, .named parts false]
  | _ => .named parts false

variable {limit : Nat} {s : Spelling} {parts : List String} {after text : List Char}
  {dotted : String} {nm : Reader String} {Fit : String → Prop}

theorem Spelling.text_written (s : Spelling) (parts : List String) :
    (s.written parts).text = s.typeText (".".intercalate parts) := by
  cases s <;> simp [written, typeText, LuaType.text, LuaType.texts, Keyword.text]

theorem Spelling.admissible_written (s : Spelling) (two : 2 ≤ parts.length)
    (words : ∀ w ∈ parts, IsWord w) : Admissible (limit + 1) (s.written parts) := by
  have named : Admissible (limit + 1) (.named parts false) := admissible_named.mpr ⟨two, words⟩
  cases s with
  | orNil =>
    have nil : Admissible (limit + 1) (.keyword .nil) := admissible_keyword .nil
    refine admissible_union.mpr ⟨by simp, ?_, by simp [hasResult]⟩
    simpa [isUnion] using ⟨nil, named⟩
  | _ => exact named

theorem EndsType.stops (h : EndsType after) : Stops limit (s.written parts) after := by
  have word : WordEnds after := by
    refine ⟨fun c hc => isIdent_eq_false_of_isBlank (h.head c hc), ?_⟩
    rintro c cs rfl
    exact absurd (h.head '.' rfl) (by decide)
  have noList : ∀ cs, after ≠ '[' :: ']' :: cs := by
    rintro cs rfl
    exact absurd (h.head '[' rfl) (by decide)
  have named : Ends limit (.named parts false) after := .named word noList
  refine ⟨h.noMember, ?_⟩
  cases s with
  | orNil =>
    apply Ends.union
    rintro m ⟨rfl⟩
    exact named
  | _ => exact named

/-- No part of a dotted name holds the sign between members. -/
theorem not_mem_dotted (words : ∀ w ∈ parts, IsWord w) :
    '|' ∉ (".".intercalate parts).toList := by
  cases parts with
  | nil => simp
  | cons p ps =>
    have noBar : ∀ w ∈ p :: ps, '|' ∉ w.toList := by
      intro w hw mem
      exact absurd ((words w hw).2 '|' mem) (by decide)
    rw [toList_dotted, List.mem_append, List.mem_flatMap]
    rintro (mem | ⟨q, hq, mem⟩)
    · exact noBar p List.mem_cons_self mem
    · rcases List.mem_cons.mp mem with eq | mem
      · exact absurd eq (by decide)
      · exact noBar q (List.mem_cons_of_mem p hq) mem

/-- The type that a place has by a spelling of its type. -/
def Spelling.stored (s : Spelling) (parts : List String) : LuaType :=
  match s with
  | .plain => .named parts false
  | _ => .union [.keyword .nil, .named parts false]

/-- A line that gives a place the dotted name is read, in whatever spelling. -/
theorem parameter_of_asksFor (limit : Nat) (names : ReadsNames nm Fit) (two : 2 ≤ parts.length)
    (words : ∀ w ∈ parts, IsWord w) (h : AsksFor Fit (".".intercalate parts) text) :
    ∃ (s : Spelling) (name desc : String),
      parameter (limit + 1) nm text = .ok ⟨name, s.stored parts, desc, []⟩ := by
  obtain ⟨s, before, gap, after, name, rfl, hb, fit, hg, ne, ends⟩ := h
  refine ⟨s, name, description after, ?_⟩
  have admissible : Admissible (limit + 1) (s.written parts) := s.admissible_written two words
  have read := readWithin_text admissible hg ends.stops
  rw [Spelling.text_written] at read
  have apart : IdentEnds (s.mark.toList ++ (gap ++ ((s.typeText (".".intercalate parts)).toList ++
      after))) := by
    obtain ⟨b, bs, rfl⟩ := List.exists_cons_of_ne_nil ne
    have blank := isIdent_eq_false_of_isBlank (hg b List.mem_cons_self)
    cases s with
    | optional => simpa [Spelling.mark, IdentEnds] using by decide
    | _ => simpa [Spelling.mark, IdentEnds] using blank
  rw [parameter, dropBlanks_inked hb (names.inked fit)]
  refine bind_eq_ok_iff.mpr ⟨_, names.reads fit apart, ?_⟩
  cases s with
  | optional =>
    exact bind_eq_ok_iff.mpr ⟨_, read, rfl⟩
  | plain | orNil =>
    simp only [Spelling.mark, String.toList_empty, List.nil_append, questionMark_of_read read]
    exact bind_eq_ok_iff.mpr ⟨_, read, rfl⟩

/-- An alias without values is not read. -/
theorem aliasBlock?_values_ne_nil {lines : List String} {a : AliasDoc}
    (h : aliasBlock? lines = some a) : a.values ≠ [] := by
  simp only [aliasBlock?, Option.bind_eq_bind, Option.bind_eq_some_iff] at h
  obtain ⟨_, -, _, -, values, -, h⟩ := h
  split at h
  · cases h
  · next some =>
    cases h
    exact fun none => some (.inr none)

theorem values_ne_nil {source : List Char} {a : AliasDoc} (h : a ∈ (fileOfText source).aliases) :
    a.values ≠ [] := by
  obtain ⟨b, o, -, accounts, ho⟩ := exists_block_of_mem h
  cases accounts with
  | aliasDoc read =>
    obtain rfl := Option.some.inj ho
    exact aliasBlock?_values_ne_nil read
  | _ => cases ho

end Comment
open Comment

namespace Catalog

/-- With or without `nil` before it, the catalog is asked for the dotted name itself. -/
theorem nameAsked_stored (s : Spelling) {parts : List String} (words : ∀ w ∈ parts, IsWord w) :
    nameAsked (s.stored parts).text = ".".intercalate parts := by
  have plain : (LuaType.named parts false).text = ".".intercalate parts := by
    simp [LuaType.text]
  have orNil : (LuaType.union [.keyword .nil, .named parts false]).text =
      "nil|" ++ ".".intercalate parts := by
    simp [LuaType.text, LuaType.texts, Keyword.text]
  cases s with
  | plain => rw [Spelling.stored, plain, nameAsked_of_no_bar (not_mem_dotted words)]
  | optional | orNil => simp only [Spelling.stored, orNil, nameAsked_nil]

/-- The parameter has the public fields of the class, if there is one and it is not opaque, and is
exported with the values of the alias, if there is one. -/
structure ResolvesTo (c : Catalog) (cls : Option ClassDoc) (named : Option AliasDoc) (p : Param) :
    Prop where
  fields : c.subparams p = cls.elim [] fun k => if k.isOpaque then [] else k.publicParams
  values : ∀ expanding, (c.paramTree expanding p).toJson.member? "values" =
    named.map fun a => .array (a.values.map Choice.toJson)

theorem member?_values (t : ParamTree) : t.toJson.member? "values" =
    if t.values = [] then none else some (.array (t.values.map Choice.toJson)) := by
  obtain ⟨name, type, desc, subparams, values⟩ := t
  rw [ParamTree.toJson]
  cases values <;> cases subparams <;> rfl

theorem subparams_of_nameAsked {c : Catalog} {p : Param} (alone : p.subparams = []) {name : String}
    (asked : nameAsked p.type.text = name) : c.subparams p =
      (c.classNamed? name).elim [] fun k => if k.isOpaque then [] else k.publicParams := by
  rw [subparams_resolved alone, classParams, class?_eq_classNamed?, asked]
  cases c.classNamed? name <;> rfl

theorem values_of_nameAsked {c : Catalog} {p : Param} {name : String}
    (asked : nameAsked p.type.text = name) (some : ∀ a ∈ c.aliases, a.values ≠ [])
    (expanding : List String) : (c.paramTree expanding p).toJson.member? "values" =
      (c.aliasNamed? name).map fun a => .array (a.values.map Choice.toJson) := by
  rw [member?_values, (c.paramTree_head expanding p).2.2.2, aliasValues, alias?_eq_aliasNamed?,
    asked]
  cases found : c.aliasNamed? name with
  | none => rfl
  | some a =>
    have known := some a (List.mem_of_find?_eq_some found)
    rw [Option.elim_some, if_neg known, Option.map_some]

theorem values_ne_nil_of_parsed {sources : List (String × List Char)} :
    ∀ a ∈ (ofFiles (parsed sources)).aliases, a.values ≠ [] := by
  simp only [aliases_ofFiles, List.mem_reverse, declaredAliases, parsed, List.mem_flatMap,
    List.mem_map]
  rintro a ⟨_, ⟨x, -, rfl⟩, ha⟩
  exact values_ne_nil ha

variable {sources : List (String × List Char)} {parts : List String}

theorem resolvesTo_of_asksFor {p : Param} {nm : Reader String} {Fit : String → Prop}
    {text : List Char} (names : ReadsNames nm Fit) (two : 2 ≤ parts.length)
    (words : ∀ w ∈ parts, IsWord w) (asks : AsksFor Fit (".".intercalate parts) text)
    (alone : p.subparams = []) (read : parameter depthLimit nm text = .ok p) :
    ResolvesTo (ofFiles (parsed sources)) (lastClass (parsed sources) (".".intercalate parts))
      (lastAlias (parsed sources) (".".intercalate parts)) p := by
  have asked : nameAsked p.type.text = ".".intercalate parts := by
    obtain ⟨s, name, desc, reading⟩ := parameter_of_asksFor 63 names two words asks
    obtain rfl := Except.ok.inj (read.symm.trans reading)
    exact nameAsked_stored s words
  constructor
  · rw [subparams_of_nameAsked alone asked, classNamed?_ofFiles]
  · rw [← aliasNamed?_ofFiles]
    exact values_of_nameAsked asked values_ne_nil_of_parsed

/-- A file that does not declare a name has no say in what the name stands for, wherever it is. -/
theorem lastClass_without {front back : List (String × FileDoc)} {x : String × FileDoc}
    {name : String} (h : ∀ k ∈ x.2.classes, k.name ≠ name) :
    lastClass (front ++ x :: back) name = lastClass (front ++ back) name := by
  have none : x.2.classes.filter (·.name = name) = [] := by simpa using h
  simp [lastClass, declaredClasses, none]

theorem lastAlias_without {front back : List (String × FileDoc)} {x : String × FileDoc}
    {name : String} (h : ∀ a ∈ x.2.aliases, a.name ≠ name) :
    lastAlias (front ++ x :: back) name = lastAlias (front ++ back) name := by
  have none : x.2.aliases.filter (·.name = name) = [] := by simpa using h
  simp [lastAlias, declaredAliases, none]

/-- In any file, each parameter whose line gives it a dotted name, and each part that a line gives
one, has the fields of the last class of this name in all files and the values of the last alias. A
file that does not declare the name may stand anywhere among those that do. -/
theorem ofFiles_resolves (front back : List (String × List Char)) (path : String)
    (source : List Char) (parts : List String) (two : 2 ≤ parts.length)
    (words : ∀ w ∈ parts, IsWord w) :
    let name := ".".intercalate parts
    let files := parsed (front ++ (path, source) :: back)
    let others := parsed (front ++ back)
    let Resolved := ResolvesTo (ofFiles files) (lastClass files name) (lastAlias files name)
    (∀ f ∈ (fileOfText source).functions,
      ((ofFiles files).functionJson f).itemsAt "params" =
        f.params.map (fun p => ((ofFiles files).paramTree [] p).toJson) ∧
      List.Forall₂ (fun line p =>
          (line.inner = [] → AsksFor IsParamName name line.text → Resolved p) ∧
          List.Forall₂ (fun below s => AsksFor IsName name below → Resolved s)
            line.inner p.subparams)
        (paramLines (f.annotation.map body)) f.params) ∧
    ((∀ k ∈ (fileOfText source).classes, k.name ≠ name) →
      lastClass files name = lastClass others name) ∧
    ((∀ a ∈ (fileOfText source).aliases, a.name ≠ name) →
      lastAlias files name = lastAlias others name) := by
  intro name files others Resolved
  refine ⟨fun f hf => ⟨?_, ?_⟩, fun h => ?_, fun h => ?_⟩
  · have params : ((ofFiles files).functionJson f).itemsAt "params" =
        ((ofFiles files).views [] f.params).1.map ParamTree.toJson := rfl
    rw [params, views_eq, List.map_map]
    rfl
  · apply (params_of_file hf).imp
    rintro line p ⟨itself, parts⟩
    constructor
    · intro none asks
      have alone : p.subparams = [] := by
        rw [none] at parts
        exact List.forall₂_nil_left_iff.mp parts
      obtain ⟨_, _, _, _⟩ := p
      obtain rfl := alone
      exact resolvesTo_of_asksFor readsNames_paramName two words asks rfl itself
    · apply parts.imp
      intro below s read asks
      exact resolvesTo_of_asksFor readsNames_name two words asks (parameter_subparams read) read
  · simp only [files, others, parsed, List.map_append, List.map_cons]
    exact lastClass_without h
  · simp only [files, others, parsed, List.map_append, List.map_cons]
    exact lastAlias_without h

theorem ofFiles_resolves_declared_later :
    let user := "---@param a x.A it\n---@param b? x.A\n---@param c nil|x.A\nM.f = 1".toList
    let declarer := ("---@class x.A\n---@field n integer size\n---@field private s string\n\n" ++
      "---@alias x.A\n---| 'k'").toList
    let c := ofFiles (parsed [("a.lua", user), ("b.lua", declarer)])
    2 ≤ ["x", "A"].length ∧ (∀ w ∈ ["x", "A"], IsWord w) ∧
    ∃ f ∈ (fileOfText user).functions, f.params.map Param.name = ["a", "b", "c"] ∧
      ∀ p ∈ f.params,
        (c.subparams p).map (fun s => (s.name, s.type.text, s.desc)) = [("n", "integer", "size")] ∧
        (c.paramTree [] p).toJson.member? "values" =
          some (.array [Choice.toJson ⟨"k", ""⟩]) := by
  intro user declarer c
  have two : 2 ≤ ["x", "A"].length := by decide
  have words : ∀ w ∈ ["x", "A"], IsWord w := by decide
  have name : ".".intercalate ["x", "A"] = "x.A" := by decide
  obtain ⟨functions, -, -⟩ := ofFiles_resolves [] [("b.lua", declarer)] "a.lua" user ["x", "A"]
    two words
  rw [name] at functions
  obtain ⟨classes, aliases⟩ :
      (fileOfText declarer).classes.map (fun k =>
        (k.name, k.isOpaque, k.publicParams.map fun s => (s.name, s.type.text, s.desc))) =
          [("x.A", false, [("n", "integer", "size")])] ∧
      (fileOfText declarer).aliases = [⟨"x.A", [⟨"k", ""⟩]⟩] := by decide +kernel
  obtain ⟨written, noClass, noAlias⟩ :
      (fileOfText user).functions.map (fun f => (f.annotation, f.params.map Param.name)) =
        [(["---@param a x.A it", "---@param b? x.A", "---@param c nil|x.A"], ["a", "b", "c"])] ∧
      (fileOfText user).classes.isEmpty = true ∧ (fileOfText user).aliases = [] := by
    decide +kernel
  obtain ⟨k, alone, row⟩ := List.map_eq_singleton_iff.mp classes
  obtain ⟨called, transparent, params⟩ : k.name = "x.A" ∧ k.isOpaque = false ∧
      k.publicParams.map (fun s => (s.name, s.type.text, s.desc)) = [("n", "integer", "size")] := by
    simpa only [Prod.mk.injEq] using row
  have cls : lastClass (parsed [("a.lua", user), ("b.lua", declarer)]) "x.A" = some k := by
    simp [lastClass, declaredClasses, parsed, List.isEmpty_iff.mp noClass, alone, called]
  have named : lastAlias (parsed [("a.lua", user), ("b.lua", declarer)]) "x.A" =
      some ⟨"x.A", [⟨"k", ""⟩]⟩ := by
    simp [lastAlias, declaredAliases, parsed, noAlias, aliases]
  have shows : ∀ p, ResolvesTo c (lastClass (parsed [("a.lua", user), ("b.lua", declarer)]) "x.A")
      (lastAlias (parsed [("a.lua", user), ("b.lua", declarer)]) "x.A") p →
      (c.subparams p).map (fun s => (s.name, s.type.text, s.desc)) = [("n", "integer", "size")] ∧
      (c.paramTree [] p).toJson.member? "values" = some (.array [Choice.toJson ⟨"k", ""⟩]) := by
    rintro p ⟨fields, values⟩
    rw [fields, values, cls, named, Option.elim_some, if_neg (by simp [transparent])]
    exact ⟨params, rfl⟩
  obtain ⟨f, hf, eq⟩ := List.mem_map.mp (written ▸ List.mem_cons_self)
  obtain ⟨lines, params⟩ := Prod.mk.inj eq
  refine ⟨two, words, f, hf, params, ?_⟩
  have resolved := (functions f hf).2
  have split : paramLines (f.annotation.map body) =
      [⟨.param, " a x.A it".toList, []⟩, ⟨.param, " b? x.A".toList, []⟩,
        ⟨.param, " c nil|x.A".toList, []⟩] := by
    rw [lines]
    rfl
  simp only [split, List.forall₂_cons_left_iff, List.forall₂_nil_left_iff] at resolved
  obtain ⟨a, _, ⟨ha, -⟩, ⟨b, _, ⟨hb, -⟩, ⟨d, _, ⟨hd, -⟩, rfl, rfl⟩, rfl⟩, all⟩ := resolved
  rw [all]
  simp only [List.forall_mem_cons]
  refine ⟨shows a (ha trivial ?_), shows b (hb trivial ?_), shows d (hd trivial ?_), by simp⟩
  · exact ⟨.plain, [' '], [' '], " it".toList, "a", rfl, by decide, .inr (by decide), by decide,
      by decide, by simp [isBlank], by decide⟩
  · exact ⟨.optional, [' '], [' '], [], "b", rfl, by decide, .inr (by decide), by decide,
      by decide, by simp, by decide⟩
  · exact ⟨.orNil, [' '], [' '], [], "c", rfl, by decide, .inr (by decide), by decide,
      by decide, by simp, by decide⟩

end Catalog
end Annodoc
