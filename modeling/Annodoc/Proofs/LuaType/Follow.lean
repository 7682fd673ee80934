import Annodoc.LuaType.Parser
import Annodoc.Proofs.LuaType.WellFormed

/-!
# What may follow a type

A reader takes all that continues a type, so what a text holds behind a written type decides
whether the type ends there. Only the last token of a type asks for something of what follows.
-/

namespace Annodoc.LuaType
open Grammar Text

/-- What follows continues neither a word nor a dotted name. -/
def WordEnds (rest : List Char) : Prop :=
  IdentEnds rest ∧ ∀ c cs, rest = '.' :: c :: cs → isIdent c = false

/-- A map cannot be read here, and not because it is too deep. -/
def NoMap (limit : Nat) (rest : List Char) : Prop :=
  ∃ stop, mapTail (readWithin limit) rest = .error stop ∧ stop.expected ≠ .shallowerType

/-- The last token of a type less than `limit` deep ends in front of `rest`. -/
inductive Ends : Nat → LuaType → List Char → Prop where
  | keyword {limit k rest} : WordEnds rest →
      (k ≠ .nil → ∀ cs, rest = '[' :: ']' :: cs → ¬IdentEnds cs) →
      (k = .table → NoMap limit rest) → Ends (limit + 1) (.keyword k) rest
  | literal {limit q s rest} : Ends limit (.literal q s) rest
  | number {limit digits rest} : WordEnds rest → Ends limit (.number digits) rest
  | named {limit parts rest} : WordEnds rest → (∀ cs, rest ≠ '[' :: ']' :: cs) →
      Ends limit (.named parts false) rest
  | namedList {limit parts rest} : Ends limit (.named parts true) rest
  | list {limit e rest} : IdentEnds rest → Ends limit (.list e) rest
  | map {limit key value rest} : Ends limit (.map key value) rest
  | function {limit ps rest} : mark? ':' rest = none → Ends limit (.function ps none) rest
  | result {limit ps t rest} : mark? '|' rest = none → Ends limit t rest →
      Ends (limit + 1) (.function ps (some t)) rest
  | table {limit slots rest} : Ends limit (.table slots) rest
  | union {limit ms rest} : (∀ m ∈ ms.getLast?, Ends limit m rest) → Ends limit (.union ms) rest

/-- A type ends in front of `rest`: its last token does, and no further member follows. -/
structure Stops (limit : Nat) (t : LuaType) (rest : List Char) : Prop where
  noMember : mark? '|' rest = none
  ends : Ends limit t rest

/-- A text that continues no type, except maybe by a further member. -/
structure Plain (rest : List Char) : Prop where
  head : ∀ c ∈ rest.head?, isIdent c = false ∧ c ≠ '.' ∧ c ≠ '['
  noResult : mark? ':' rest = none
  noMap : mark? '<' rest = none

variable {limit : Nat} {t : LuaType} {c : Char} {cs rest : List Char}

theorem Plain.identEnds (h : Plain rest) : IdentEnds rest := fun c hc => (h.head c hc).1

theorem Plain.wordEnds (h : Plain rest) : WordEnds rest := by
  refine ⟨h.identEnds, ?_⟩
  rintro c cs rfl
  exact absurd rfl (h.head '.' rfl).2.1

theorem Plain.no_brackets (h : Plain rest) (cs : List Char) : rest ≠ '[' :: ']' :: cs := by
  intro eq
  subst eq
  exact absurd rfl (h.head '[' rfl).2.2

theorem noMap_of_mark? (h : mark? '<' rest = none) : NoMap limit rest :=
  ⟨⟨.token '<', dropBlanks rest⟩, by simp [mapTail, mark, h, bind, Except.bind], by simp⟩

/-- A type without members and without a result ends in front of every plain text. -/
theorem Plain.ends_single (h : Plain rest) (hl : 0 < limit) (hu : t.isUnion = false)
    (hr : t.hasResult = false) : Ends limit t rest := by
  obtain ⟨limit, rfl⟩ : ∃ n, limit = n + 1 := ⟨limit - 1, by omega⟩
  cases t with
  | keyword k =>
    exact .keyword h.wordEnds (fun _ cs eq => absurd eq (h.no_brackets cs))
      fun _ => noMap_of_mark? h.noMap
  | literal q s => exact .literal
  | number digits => exact .number h.wordEnds
  | named parts isList =>
    cases isList with
    | true => exact .namedList
    | false => exact .named h.wordEnds h.no_brackets
  | list e => exact .list h.identEnds
  | map key value => exact .map
  | function ps ret =>
    cases ret with
    | none => exact .function h.noResult
    | some t => simp [hasResult] at hr
  | table slots => exact .table
  | union ms => simp [isUnion] at hu

/-- Every type ends in front of a plain text that has no further member. -/
theorem Plain.stops (h : Plain rest) (hm : mark? '|' rest = none) (ht : Admissible limit t) :
    Stops limit t rest := by
  refine ⟨hm, ?_⟩
  obtain ⟨wf, hn⟩ := ht
  induction wf generalizing limit with
  | function ps ret names types results ihs ihr =>
    cases ret with
    | none => exact h.ends_single (by omega) rfl rfl
    | some t =>
      obtain ⟨limit, rfl⟩ : ∃ n, limit = n + 1 := ⟨limit - 1, by omega⟩
      rw [nesting, resultNesting] at hn
      exact .result hm (ihr t rfl (by omega))
  | union ms two flat results types ih =>
    refine .union fun m hl => ?_
    have mem := List.mem_of_getLast? hl
    rw [nesting, memberNesting_lt_iff (by omega)] at hn
    exact ih m mem (hn m mem)
  | _ => exact h.ends_single (by omega) rfl rfl

/-- A blank begins no continuation of a token. -/
theorem head_of_isBlank (h : isBlank c = true) : isIdent c = false ∧ c ≠ '.' ∧ c ≠ '[' := by
  simp only [isBlank, Bool.or_eq_true, decide_eq_true_eq] at h
  rcases h with rfl | rfl <;> decide

/-- A text is plain when a mark that ends types is the first thing in it. -/
theorem plain_of_mark? (h : mark? c cs = some rest) (hc : c ∈ [',', '>', ')', '\x7d', ']', '|']) :
    Plain cs := by
  have hd : (isIdent c = false ∧ c ≠ '.' ∧ c ≠ '[') ∧ c ≠ ':' ∧ c ≠ '<' := by
    simp only [List.mem_cons, List.not_mem_nil, or_false] at hc
    rcases hc with rfl | rfl | rfl | rfl | rfl | rfl <;> decide
  refine ⟨fun d hm => ?_, mark?_eq_none_of_ne h hd.2.1, mark?_eq_none_of_ne h hd.2.2⟩
  rcases head_of_mark? h d hm with hb | rfl
  · exact head_of_isBlank hb
  · exact hd.1

theorem plain_of_blanks (h : Blanks rest) : Plain rest := by
  refine ⟨fun c hc => ?_, mark?_of_blanks h ':', mark?_of_blanks h '<'⟩
  exact head_of_isBlank (h c (List.mem_of_head? hc))

/-- A comma or a closing mark ends every type. -/
theorem stops_of_mark? {c : Char} (h : mark? c cs = some rest)
    (hc : c ∈ [',', '>', ')', '\x7d', ']']) (ht : Admissible limit t) : Stops limit t cs := by
  have hc' : c ≠ '|' ∧ c ∈ [',', '>', ')', '\x7d', ']', '|'] := by
    simp only [List.mem_cons, List.not_mem_nil, or_false] at hc
    rcases hc with rfl | rfl | rfl | rfl | rfl <;> decide
  exact (plain_of_mark? h hc'.2).stops (mark?_eq_none_of_ne h hc'.1) ht

theorem wordEnds_of_mark? {c : Char} (h : mark? c cs = some rest) (hc : isIdent c = false)
    (hd : c ≠ '.') : WordEnds cs := by
  refine ⟨identEnds_of_mark? hc h, ?_⟩
  rintro d ds rfl
  rcases head_of_mark? h '.' rfl with hb | rfl
  · exact absurd hb (by decide)
  · exact absurd rfl hd

/-- A member that another one may follow has no result, and any other member may stand there. -/
theorem ends_before_member_iff (ht : t.isUnion = false ∧ Admissible (limit + 1) t)
    (hm : mark? '|' cs ≠ none) : Ends (limit + 1) t cs ↔ t.hasResult = false := by
  obtain ⟨after, hm⟩ := Option.ne_none_iff_exists'.mp hm
  constructor
  · intro he
    cases he with
    | result no => simp [hm] at no
    | _ => rfl
  · intro hr
    exact (plain_of_mark? hm (by decide)).ends_single (by omega) ht.1 hr

end Annodoc.LuaType
