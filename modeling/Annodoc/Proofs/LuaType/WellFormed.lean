import Annodoc.LuaType.Basic
import Annodoc.Proofs.Grammar.Token

/-!
# Well-formed types

The types that a text can stand for, by the shape of their parts, and how deep they nest. What is
admissible within a limit is settled by the parts of a type one level less deep.
-/

namespace Annodoc
open Grammar

/-- The names that slots of functions have. -/
def IsParamName (s : String) : Prop := s = "..." ∨ IsName s

namespace LuaType

def isUnion : LuaType → Bool
  | .union _ => true
  | _ => false

/-- Whether the type is a function with a result. -/
def hasResult : LuaType → Bool
  | .function _ (some _) => true
  | _ => false

/-- A result takes all the members that follow, so only the last member of a union has one. -/
inductive WellFormed : LuaType → Prop where
  | keyword (k) : WellFormed (.keyword k)
  | literal (q s) : q.char ∉ s.toList → WellFormed (.literal q s)
  | number (digits) : digits.toList ≠ [] → (∀ c ∈ digits.toList, c.isDigit = true) →
      WellFormed (.number digits)
  | named (parts isList) : 2 ≤ parts.length → (∀ p ∈ parts, IsWord p) →
      WellFormed (.named parts isList)
  | list (e) : WellFormed (.list e)
  | map (k v) : WellFormed k → WellFormed v → WellFormed (.map k v)
  | function (ps ret) : (∀ s ∈ ps, IsParamName s.name) → (∀ s ∈ ps, WellFormed s.type) →
      (∀ t ∈ ret, WellFormed t) → WellFormed (.function ps ret)
  | table (slots) : slots ≠ [] → (∀ s ∈ slots, IsName s.name) →
      (∀ s ∈ slots, WellFormed s.type) → WellFormed (.table slots)
  | union (ms) : 2 ≤ ms.length → (∀ m ∈ ms, m.isUnion = false) →
      (∀ m ∈ ms.dropLast, m.hasResult = false) → (∀ m ∈ ms, WellFormed m) →
      WellFormed (.union ms)

mutual

/-- One level for each key, value, slot and result. -/
def nesting : LuaType → Nat
  | .keyword _ => 0
  | .literal _ _ => 0
  | .number _ => 0
  | .named _ _ => 0
  | .list _ => 0
  | .map key value => max (key.nesting + 1) (value.nesting + 1)
  | .function params returns => max (slotNesting params) (resultNesting returns)
  | .table slots => slotNesting slots
  | .union members => memberNesting members

def slotNesting : List (Slot LuaType) → Nat
  | [] => 0
  | ⟨_, _, t⟩ :: slots => max (t.nesting + 1) (slotNesting slots)

def resultNesting : Option LuaType → Nat
  | none => 0
  | some t => t.nesting + 1

def memberNesting : List LuaType → Nat
  | [] => 0
  | t :: ts => max t.nesting (memberNesting ts)

end

attribute [local simp] nesting slotNesting resultNesting memberNesting

theorem slotNesting_lt_iff {slots : List (Slot LuaType)} {n : Nat} :
    slotNesting slots < n + 1 ↔ ∀ s ∈ slots, s.type.nesting < n := by
  induction slots with
  | nil => simp
  | cons s slots ih =>
    rw [List.forall_mem_cons, ← ih, slotNesting]
    omega

theorem resultNesting_lt_iff {ret : Option LuaType} {n : Nat} :
    resultNesting ret < n + 1 ↔ ∀ t ∈ ret, t.nesting < n := by
  cases ret <;> simp

theorem memberNesting_lt_iff {ms : List LuaType} {n : Nat} (hn : 0 < n) :
    memberNesting ms < n ↔ ∀ m ∈ ms, m.nesting < n := by
  induction ms with
  | nil => simpa using hn
  | cons m ms ih =>
    rw [List.forall_mem_cons, ← ih, memberNesting]
    omega

/-- Well formed, and less than `limit` deep. -/
structure Admissible (limit : Nat) (t : LuaType) : Prop where
  wellFormed : t.WellFormed
  shallow : t.nesting < limit

variable {limit : Nat}

theorem admissible_keyword (k : Keyword) : Admissible (limit + 1) (.keyword k) :=
  ⟨.keyword k, by simp⟩

theorem admissible_literal {q : Quote} {s : String} :
    Admissible (limit + 1) (.literal q s) ↔ q.char ∉ s.toList := by
  constructor
  · intro h
    obtain ⟨h, -⟩ := h
    cases h with
    | literal _ _ h => exact h
  · intro h
    exact ⟨.literal q s h, by simp⟩

theorem admissible_number {digits : String} : Admissible (limit + 1) (.number digits) ↔
    digits.toList ≠ [] ∧ ∀ c ∈ digits.toList, c.isDigit = true := by
  constructor
  · intro h
    obtain ⟨h, -⟩ := h
    cases h with
    | number _ h k => exact ⟨h, k⟩
  · intro h
    obtain ⟨h, k⟩ := h
    exact ⟨.number digits h k, by simp⟩

theorem admissible_named {parts : List String} {isList : Bool} :
    Admissible (limit + 1) (.named parts isList) ↔ 2 ≤ parts.length ∧ ∀ p ∈ parts, IsWord p := by
  constructor
  · intro h
    obtain ⟨h, -⟩ := h
    cases h with
    | named _ _ h k => exact ⟨h, k⟩
  · intro h
    obtain ⟨h, k⟩ := h
    exact ⟨.named parts isList h k, by simp⟩

theorem admissible_list (e : Element) : Admissible (limit + 1) (.list e) :=
  ⟨.list e, by simp⟩

theorem admissible_map {k v : LuaType} :
    Admissible (limit + 1) (.map k v) ↔ Admissible limit k ∧ Admissible limit v := by
  constructor
  · intro h
    obtain ⟨h, hn⟩ := h
    rw [nesting] at hn
    cases h with
    | map _ _ hk hv => exact ⟨⟨hk, by omega⟩, hv, by omega⟩
  · intro h
    obtain ⟨hk, hv⟩ := h
    have := hk.shallow
    have := hv.shallow
    exact ⟨.map k v hk.wellFormed hv.wellFormed, by rw [nesting]; omega⟩

theorem admissible_function {ps : List (Slot LuaType)} {ret : Option LuaType} :
    Admissible (limit + 1) (.function ps ret) ↔
      (∀ s ∈ ps, IsParamName s.name ∧ Admissible limit s.type) ∧
        ∀ t ∈ ret, Admissible limit t := by
  constructor
  · intro h
    obtain ⟨h, hn⟩ := h
    rw [nesting] at hn
    have hs := slotNesting_lt_iff.mp (show slotNesting ps < limit + 1 by omega)
    have hr := resultNesting_lt_iff.mp (show resultNesting ret < limit + 1 by omega)
    cases h with
    | function _ _ names types results =>
      exact ⟨fun s m => ⟨names s m, types s m, hs s m⟩, fun t m => ⟨results t m, hr t m⟩⟩
  · intro h
    obtain ⟨hs, hr⟩ := h
    have ns := slotNesting_lt_iff.mpr fun s m => (hs s m).2.shallow
    have nr := resultNesting_lt_iff.mpr fun t m => (hr t m).shallow
    exact ⟨.function ps ret (fun s m => (hs s m).1) (fun s m => (hs s m).2.wellFormed)
      fun t m => (hr t m).wellFormed, by rw [nesting]; omega⟩

theorem admissible_table {slots : List (Slot LuaType)} :
    Admissible (limit + 1) (.table slots) ↔
      slots ≠ [] ∧ ∀ s ∈ slots, IsName s.name ∧ Admissible limit s.type := by
  constructor
  · intro h
    obtain ⟨h, hn⟩ := h
    rw [nesting, slotNesting_lt_iff] at hn
    cases h with
    | table _ hne names types => exact ⟨hne, fun s m => ⟨names s m, types s m, hn s m⟩⟩
  · intro h
    obtain ⟨hne, h⟩ := h
    refine ⟨.table slots hne (fun s m => (h s m).1) fun s m => (h s m).2.wellFormed, ?_⟩
    rw [nesting, slotNesting_lt_iff]
    exact fun s m => (h s m).2.shallow

theorem admissible_union {ms : List LuaType} :
    Admissible (limit + 1) (.union ms) ↔ 2 ≤ ms.length ∧
      (∀ m ∈ ms, m.isUnion = false ∧ Admissible (limit + 1) m) ∧
        ∀ m ∈ ms.dropLast, m.hasResult = false := by
  constructor
  · intro h
    obtain ⟨h, hn⟩ := h
    rw [nesting, memberNesting_lt_iff (by omega)] at hn
    cases h with
    | union _ two flat results types =>
      exact ⟨two, fun m hm => ⟨flat m hm, types m hm, hn m hm⟩, results⟩
  · intro h
    obtain ⟨two, h, results⟩ := h
    refine ⟨.union ms two (fun m hm => (h m hm).1) results fun m hm => (h m hm).2.wellFormed, ?_⟩
    rw [nesting, memberNesting_lt_iff (by omega)]
    exact fun m hm => (h m hm).2.shallow

theorem not_admissible_zero {t : LuaType} : ¬Admissible 0 t := fun h => Nat.not_lt_zero _ h.shallow

variable {t : LuaType}

/-- Both a union and any other type may get `nil` as a further member in front. -/
theorem Admissible.orNil (h : Admissible (limit + 1) t) : Admissible (limit + 1) t.orNil := by
  have nil : Admissible (limit + 1) (.keyword .nil) := admissible_keyword .nil
  by_cases hu : t.isUnion = true
  · cases t with
    | union ms =>
      obtain ⟨two, members, results⟩ := admissible_union.mp h
      refine admissible_union.mpr ⟨?_, List.forall_mem_cons.mpr ⟨⟨rfl, nil⟩, members⟩, ?_⟩
      · simp only [alternatives, List.length_cons]
        omega
      · rw [alternatives, List.dropLast_cons_of_ne_nil (List.ne_nil_of_length_pos (by omega))]
        exact List.forall_mem_cons.mpr ⟨rfl, results⟩
    | _ => simp [isUnion] at hu
  · have single : t.alternatives = [t] := by
      cases t with
      | union ms => exact absurd rfl hu
      | _ => rfl
    rw [LuaType.orNil, single]
    refine admissible_union.mpr ⟨by simp, ?_, by simp [hasResult]⟩
    simpa [isUnion] using ⟨nil, eq_false_of_ne_true hu, h⟩

theorem Admissible.ofPlace (h : Admissible limit t) (optional : Bool) :
    Admissible limit (t.ofPlace optional) := by
  cases limit with
  | zero => exact absurd h not_admissible_zero
  | succ limit =>
    cases optional with
    | false => exact h
    | true => exact h.orNil

end LuaType
end Annodoc
