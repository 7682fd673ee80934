import Annodoc.Proofs.Comment.TagLines

/-!
# The types in documentation

What a source documents holds only types that are admissible: the ones that its lines were read as,
and those with `nil` before them, for optional places. Such a type is what its own text is read
as, so the texts in a document tell its types apart.
-/

namespace Annodoc
open Grammar

mutual

/-- The type of a parameter, and those of its parts. -/
def Param.types : Param → List LuaType
  | ⟨_, t, _, subparams⟩ => t :: Param.typesOfAll subparams

def Param.typesOfAll : List Param → List LuaType
  | [] => []
  | p :: ps => p.types ++ Param.typesOfAll ps

end

def FunctionDoc.types (f : FunctionDoc) : List LuaType :=
  Param.typesOfAll f.params ++ f.returns.map Return.type

def FieldKey.types : FieldKey → List LuaType
  | .named _ _ => []
  | .keyed key => [key]

def Field.types (f : Field) : List LuaType := f.key.types ++ [f.type]

def ClassDoc.types (c : ClassDoc) : List LuaType := c.fields.flatMap Field.types

/-- All types that the documentation of a file holds. -/
def FileDoc.types (file : FileDoc) : List LuaType :=
  file.functions.flatMap FunctionDoc.types ++ file.classes.flatMap ClassDoc.types

theorem Param.typesOfAll_eq_flatMap (ps : List Param) :
    Param.typesOfAll ps = ps.flatMap Param.types := by
  induction ps with
  | nil => rfl
  | cons p ps ih => rw [Param.typesOfAll, ih, List.flatMap_cons]

namespace Comment
open LuaType (Admissible admissible_of_read)
open LineMismatch (atLine)

def Clause.types : Clause → List LuaType
  | .param p => p.types
  | .returns r => [r.type]
  | _ => []

def Outcome.types : Outcome → List LuaType
  | .functionDoc f => f.types
  | .classDoc c => c.types
  | _ => []

variable {limit index : Nat} {line cs : List Char}

/-! ## Function blocks -/

theorem parameter_type {name : Reader String} {p : Param} (h : parameter limit name cs = .ok p) :
    Admissible limit p.type := by
  simp only [parameter, bind_eq_ok_iff] at h
  obtain ⟨⟨_, rest⟩, -, ⟨t, _⟩, ht, h⟩ := h
  cases h
  exact (admissible_of_read ht).ofPlace _

theorem subparams_types {lines : List (List Char)} {ps : List Param}
    (h : List.Forall₂ (fun line s => parameter limit Grammar.name line = .ok s) lines ps) :
    ∀ t ∈ Param.typesOfAll ps, Admissible limit t := by
  induction h with
  | nil => simp [Param.typesOfAll]
  | @cons line p lines ps read _ ih =>
    have type := parameter_type read
    obtain ⟨_, t, _, subs⟩ := p
    obtain rfl : subs = [] := parameter_subparams read
    exact List.forall_mem_cons.mpr ⟨type, ih⟩

theorem ReadFrom.types {line : TagLine} {c : Clause} (h : ReadFrom limit line c) :
    ∀ t ∈ c.types, Admissible limit t := by
  cases h with
  | param _ itself parts =>
    exact List.forall_mem_cons.mpr ⟨parameter_type itself, subparams_types parts⟩
  | returns _ read => simpa [Clause.types] using admissible_of_read read
  | _ => simp [Clause.types]

/-- A document has the types of its clauses and no other. -/
theorem exists_clause_of_types {name summary : String} {found : List Clause} {t : LuaType}
    (h : t ∈ (functionOfClauses name summary found).types) : ∃ c ∈ found, t ∈ c.types := by
  simp only [functionOfClauses, FunctionDoc.types, Param.typesOfAll_eq_flatMap, List.mem_append,
    List.mem_flatMap, List.mem_map, List.mem_filterMap] at h
  rcases h with ⟨p, ⟨c, hc, hp⟩, ht⟩ | ⟨r, ⟨c, hc, hr⟩, rfl⟩
  · obtain rfl := Clause.param?_eq_some_iff.mp hp
    exact ⟨_, hc, ht⟩
  · obtain rfl := Clause.return?_eq_some_iff.mp hr
    exact ⟨_, hc, List.mem_singleton.mpr rfl⟩

theorem functionBlock_types {name : String} {lines : List String} {f : FunctionDoc}
    (h : functionBlockWithin limit name lines = .ok f) : ∀ t ∈ f.types, Admissible limit t := by
  obtain ⟨summary, found, rfl, read⟩ := functionBlock_readFrom h
  intro t ht
  obtain ⟨c, hc, ht⟩ := exists_clause_of_types ht
  obtain ⟨line, -, source⟩ := exists_left_of_forall₂ read c hc
  exact source.types t ht

/-! ## Class blocks -/

theorem keyedField_types {f : Field} (h : keyedField limit cs = .ok f) :
    ∀ t ∈ f.types, Admissible limit t := by
  simp only [keyedField, bind_eq_ok_iff] at h
  obtain ⟨⟨key, _⟩, hk, _, -, ⟨value, _⟩, hv, h⟩ := h
  cases h
  simpa [Field.types, FieldKey.types] using ⟨admissible_of_read hk, admissible_of_read hv⟩

theorem namedField_types {scope : Option Scope} {name : String} {f : Field}
    (h : namedField limit scope name cs = .ok f) : ∀ t ∈ f.types, Admissible limit t := by
  simp only [namedField, bind_eq_ok_iff] at h
  obtain ⟨⟨t, _⟩, ht, h⟩ := h
  cases h
  simpa [Field.types, FieldKey.types] using (admissible_of_read ht).ofPlace _

theorem fieldWithScope_types {scope : Scope} {f : Field}
    (h : fieldWithScope limit scope cs = .ok f) : ∀ t ∈ f.types, Admissible limit t := by
  simp only [fieldWithScope, bind_eq_ok_iff] at h
  obtain ⟨_, -, h⟩ := h
  exact namedField_types h

theorem field_types {f : Field} (h : field limit cs = .ok f) :
    ∀ t ∈ f.types, Admissible limit t := by
  simp only [field] at h
  split at h
  · exact keyedField_types h
  · split at h
    · cases h
    · split at h
      · exact namedField_types h
      · split at h
        · next found => exact fieldWithScope_types (found.trans h)
        · next found => exact namedField_types (found.trans h)
        · cases h

theorem members_types {markAllowed isOpaque : Bool} {lines : List (List Char)}
    {fields : List Field} (h : members limit index markAllowed lines = .ok (isOpaque, fields)) :
    ∀ f ∈ fields, ∀ t ∈ f.types, Admissible limit t := by
  induction lines generalizing index markAllowed isOpaque fields with
  | nil =>
    cases h
    simp
  | cons line lines ih =>
    simp only [members] at h
    split at h
    · split at h
      · simp only [bind_eq_ok_iff] at h
        obtain ⟨-, -, ⟨_, found⟩, hf, h⟩ := h
        cases h
        exact ih hf
      · simp [atLine, Except.mapError] at h
    · simp only [bind_eq_ok_iff] at h
      obtain ⟨f, hf, ⟨_, found⟩, hfs, h⟩ := h
      cases h
      exact List.forall_mem_cons.mpr ⟨field_types (atLine_eq_ok_iff.mp hf), ih hfs⟩
    · split at h
      · exact ih h
      · simp [atLine, Except.mapError] at h
    · simp [atLine, Except.mapError] at h

theorem classBlock_types {lines : List String} {c : ClassDoc}
    (h : classBlockWithin limit lines = .ok c) : ∀ t ∈ c.types, Admissible limit t := by
  simp only [classBlockWithin] at h
  split at h
  · simp only [bind_eq_ok_iff] at h
    obtain ⟨_, -, ⟨_, fields⟩, hf, h⟩ := h
    split at h
    · simp [atLine, Except.mapError] at h
    · cases h
      simp only [ClassDoc.types, List.mem_flatMap]
      rintro t ⟨f, mem, ht⟩
      exact members_types hf f mem t ht
  · simp [atLine, Except.mapError] at h

/-! ## Files -/

theorem Accounts.types {b : Block} {o : Outcome} (h : Accounts b o) :
    ∀ t ∈ o.types, Admissible LuaType.depthLimit t := by
  cases h with
  | functionDoc _ _ _ _ read => exact fun t ht => functionBlock_types read t ht
  | classDoc read => exact classBlock_types read
  | _ => simp [Outcome.types]

/-- A file has the types of its outcomes and no other. -/
theorem exists_outcome_of_types {outcomes : List Outcome} {t : LuaType}
    (h : t ∈ (fileOfOutcomes outcomes).types) : ∃ o ∈ outcomes, t ∈ o.types := by
  simp only [fileOfOutcomes, FileDoc.types, List.mem_append, List.mem_flatMap,
    List.mem_filterMap] at h
  rcases h with ⟨f, ⟨o, ho, hf⟩, ht⟩ | ⟨c, ⟨o, ho, hc⟩, ht⟩
  · refine ⟨o, ho, ?_⟩
    cases o with
    | functionDoc g =>
      obtain rfl : g = f := Option.some.inj hf
      exact ht
    | _ => simp [Outcome.function?] at hf
  · refine ⟨o, ho, ?_⟩
    cases o with
    | classDoc d =>
      obtain rfl : d = c := Option.some.inj hc
      exact ht
    | _ => simp [Outcome.class?] at hc

theorem admissible_of_stored {source : List String} {t : LuaType}
    (h : t ∈ (fileOfLines source).types) : Admissible LuaType.depthLimit t := by
  obtain ⟨o, ho, ht⟩ := exists_outcome_of_types h
  obtain ⟨b, -, rfl⟩ := List.mem_map.mp ho
  exact b.outcome_accounts.types t ht

/-- Every type in the documentation of a source is what its text is read as, so the texts tell the
types of all sources apart. Writing a type that was read, and reading it again, changes nothing. -/
theorem parse_stored_types :
    (∀ source, ∀ t ∈ (fileOfText source).types, LuaType.parse t.text = .ok t) ∧
    (∀ source other, ∀ t ∈ (fileOfText source).types, ∀ u ∈ (fileOfText other).types,
      t.text = u.text → t = u) ∧
    (∀ text t, LuaType.parse text = .ok t → LuaType.parse t.text = .ok t) ∧
    ∀ text position t stop, LuaType.parseAt? text position = some (.ok (t, stop)) →
      LuaType.parse t.text = .ok t := by
  have stored : ∀ source, ∀ t ∈ (fileOfText source).types, LuaType.parse t.text = .ok t :=
    fun source t h => LuaType.parse_text (admissible_of_stored h)
  refine ⟨stored, fun source other t ht u hu same => ?_, fun text t h => ?_,
    fun text position t stop h => ?_⟩
  · have again := stored source t ht
    rw [same, stored other u hu] at again
    exact (Except.ok.inj again).symm
  · exact LuaType.parse_text (LuaType.parse_eq_ok_iff.mp h).1
  · exact LuaType.parse_text (LuaType.parseAt?_eq_ok_iff.mp h).1

theorem parse_stored_types_optional_callback :
    let source := "---@param cb? fun( x:a.B ) :nil|string\n--- sub? integer\nM.f = 1".toList
    ∃ t ∈ (fileOfText source).types, t.text = "nil|fun(x: a.B): nil|string" ∧
      LuaType.parse "nil|fun(x: a.B): nil|string" = .ok t := by
  intro source
  have texts : (fileOfText source).types.map LuaType.text =
      ["nil|fun(x: a.B): nil|string", "nil|integer"] := by decide +kernel
  obtain ⟨t, ht, text⟩ : ∃ t ∈ (fileOfText source).types, t.text = "nil|fun(x: a.B): nil|string" :=
    List.mem_map.mp (texts ▸ List.mem_cons_self)
  exact ⟨t, ht, text, text ▸ parse_stored_types.1 source t ht⟩

end Comment
end Annodoc
