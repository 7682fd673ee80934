import Annodoc.LuaType.Printer
import Annodoc.Proofs.LuaType.WellFormed
import Annodoc.Proofs.Text.Trim

/-!
# Written forms of a type

The tokens of a type in the order of the grammar, with gaps wherever the grammar skips blanks. The
text of a type is one way to fill them, and no filling begins or ends with a blank.
-/

namespace Annodoc
open Grammar Text

theorem isWord_text (k : Keyword) : IsWord k.text := by
  cases k <;> decide

/-- A slot whose type is already in pieces. -/
def Slot.pieces (s : Slot (List Piece)) : List Piece :=
  .token s.name.toList :: (if s.optional then sign '?' else []) ++ sign ':' ++ .gap true :: s.type

theorem Slot.shown_pieces (s : Slot (List Piece)) :
    shown s.pieces = (Slot.text ⟨s.name, s.optional, String.ofList (shown s.type)⟩).toList := by
  rw [Slot.pieces, Slot.text]
  cases s.optional <;> simp [sign, Piece.shown]

namespace LuaType

/-- What follows `table` in a map. -/
def mapPieces (key value : List Piece) : List Piece :=
  sign '<' ++ (.gap false :: key) ++ sign ',' ++ (.gap true :: value) ++ sign '>'

/-- What follows the opening brace of a table. -/
def tablePieces (slots : List (List Piece)) : List Piece :=
  (.gap false :: separated ',' true slots) ++ sign '\x7d'

/-- What follows `fun`. -/
def functionPieces (params : List (List Piece)) (result : List Piece) : List Piece :=
  sign '(' ++ (.gap false :: separated ',' true params) ++ sign ')' ++ result

mutual

def pieces : LuaType → List Piece
  | .keyword k => [.token k.text.toList]
  | .literal q s => [.token (q.char :: s.toList ++ [q.char])]
  | .number digits => [.token digits.toList]
  | .named parts isList =>
    [.token ((".".intercalate parts).toList ++ if isList then ['[', ']'] else [])]
  | .list e => [.token (e.val.text.toList ++ ['[', ']'])]
  | .map key value => .token "table".toList :: mapPieces key.pieces value.pieces
  | .function params returns =>
    .token "fun".toList :: functionPieces (slotPieces params) (resultPieces returns)
  | .table slots => .token ['\x7b'] :: tablePieces (slotPieces slots)
  | .union members => separated '|' false (memberPieces members)

def slotPieces : List (Slot LuaType) → List (List Piece)
  | [] => []
  | ⟨name, optional, t⟩ :: slots => Slot.pieces ⟨name, optional, t.pieces⟩ :: slotPieces slots

def resultPieces : Option LuaType → List Piece
  | none => []
  | some t => sign ':' ++ .gap true :: t.pieces

def memberPieces : List LuaType → List (List Piece)
  | [] => []
  | t :: ts => t.pieces :: memberPieces ts

end

def piecesOfSlot (s : Slot LuaType) : List Piece :=
  Slot.pieces ⟨s.name, s.optional, s.type.pieces⟩

theorem slotPieces_eq_map (slots : List (Slot LuaType)) :
    slotPieces slots = slots.map piecesOfSlot := by
  induction slots with
  | nil => rfl
  | cons s slots ih => simp [slotPieces, piecesOfSlot, ih]

theorem memberPieces_eq_map (ms : List LuaType) : memberPieces ms = ms.map pieces := by
  induction ms with
  | nil => rfl
  | cons m ms ih => simp [memberPieces, ih]

theorem pieces_ofAlternatives {ms : List LuaType} (h : ms ≠ []) :
    (ofAlternatives ms).pieces = separated '|' false (ms.map pieces) := by
  cases ms with
  | nil => exact absurd rfl h
  | cons m ms =>
    cases ms with
    | nil => simp [ofAlternatives, separated]
    | cons m' ms => rw [ofAlternatives, pieces, memberPieces_eq_map]; simp

/-- The text `r` is the type `t`, token by token, with any blanks in the gaps. -/
def Renders (t : LuaType) (r : List Char) : Prop := Fills t.pieces r

instance (t : LuaType) (r : List Char) : Decidable (t.Renders r) :=
  inferInstanceAs (Decidable (Fills t.pieces r))

example : Renders (.union [.keyword .nil, .map (.keyword .string) (.named ["a", "B"] true)])
    "nil |\ttable< string,a.B[] >".toList := by decide

mutual

/-- The text of a type has one space after every comma and colon, and nothing in other gaps. -/
theorem shown_pieces : (t : LuaType) → shown t.pieces = t.text.toList
  | .keyword k => by simp [pieces, text, Piece.shown]
  | .literal q s => by simp [pieces, text, Piece.shown]
  | .number digits => by simp [pieces, text, Piece.shown]
  | .named parts isList => by cases isList <;> simp [pieces, text, Piece.shown]
  | .list e => by simp [pieces, text, Piece.shown]
  | .map key value => by
    simp [pieces, mapPieces, text, sign, Piece.shown, shown_pieces key, shown_pieces value]
  | .function params returns => by
    simp [pieces, functionPieces, text, sign, Piece.shown, shown_separated,
      shown_slotPieces params, shown_resultPieces returns, String.toList_intercalate]
  | .table slots => by
    simp [pieces, tablePieces, text, sign, Piece.shown, shown_separated, shown_slotPieces slots,
      String.toList_intercalate]
  | .union members => by
    simp [pieces, text, Piece.shown, shown_separated, shown_memberPieces members,
      String.toList_intercalate]

theorem shown_slotPieces : (slots : List (Slot LuaType)) →
    (slotPieces slots).map shown = (slotTexts slots).map String.toList
  | [] => rfl
  | ⟨name, optional, t⟩ :: slots => by
    simp [slotPieces, slotTexts, Slot.shown_pieces, shown_pieces t, shown_slotPieces slots]

theorem shown_resultPieces : (returns : Option LuaType) →
    shown (resultPieces returns) = (returnText returns).toList
  | none => rfl
  | some t => by simp [resultPieces, returnText, sign, Piece.shown, shown_pieces t]

theorem shown_memberPieces : (ts : List LuaType) →
    (memberPieces ts).map shown = (texts ts).map String.toList
  | [] => rfl
  | t :: ts => by simp [memberPieces, texts, shown_pieces t, shown_memberPieces ts]

end

theorem renders_text (t : LuaType) : t.Renders t.text.toList := by
  rw [Renders, ← shown_pieces]
  exact fills_shown t.pieces

theorem toList_dotted (p : String) (ps : List String) :
    (".".intercalate (p :: ps)).toList = p.toList ++ ps.flatMap fun q => '.' :: q.toList := by
  simpa using toList_intercalate_cons "." p ps

theorem WellFormed.inked {t : LuaType} (h : t.WellFormed) : Inked t.pieces := by
  induction h with
  | keyword k => simpa [pieces] using inked_token (isWord_text k).1 (isWord_text k).2 [] []
  | literal q s => exact ⟨q.char, s.toList ++ [q.char], [], by simp [pieces], by cases q <;> decide⟩
  | number digits hne hd =>
    have hw : ∀ c ∈ digits.toList, isIdent c = true := fun c hc => isIdent_of_isDigit (hd c hc)
    simpa [pieces] using inked_token hne hw [] []
  | named parts isList two words =>
    obtain ⟨p, ps, rfl⟩ := List.exists_cons_of_length_pos (by omega : 0 < parts.length)
    have hp := words p (by simp)
    rw [pieces, toList_dotted, List.append_assoc]
    exact inked_token hp.1 hp.2 [] _
  | list e => exact inked_token (isWord_text e.val).1 (isWord_text e.val).2 [] _
  | map k v => exact ⟨'t', ['a', 'b', 'l', 'e'], _, by simp only [pieces]; rfl, rfl⟩
  | function ps ret => exact ⟨'f', ['u', 'n'], _, by simp only [pieces]; rfl, rfl⟩
  | table slots => exact ⟨'\x7b', [], _, by simp only [pieces]; rfl, rfl⟩
  | union ms two flat results types ih =>
    obtain ⟨m, ms, rfl⟩ := List.exists_cons_of_length_pos (by omega : 0 < ms.length)
    exact (ih m (by simp)).append _

theorem WellFormed.inkedEnd {t : LuaType} (h : t.WellFormed) : InkedEnd t.pieces := by
  induction h with
  | keyword k => simpa [pieces] using inkedEnd_token (isWord_text k).1 (isWord_text k).2 []
  | literal q s => exact ⟨[], q.char :: s.toList, q.char, by simp [pieces], by cases q <;> decide⟩
  | number digits hne hd =>
    have hw : ∀ c ∈ digits.toList, isIdent c = true := fun c hc => isIdent_of_isDigit (hd c hc)
    simpa [pieces] using inkedEnd_token hne hw []
  | named parts isList two words =>
    obtain ⟨ps, p, rfl⟩ := List.eq_nil_or_concat' parts |>.resolve_left (by rintro rfl; simp at two)
    cases isList with
    | true => exact ⟨[], (".".intercalate (ps ++ [p])).toList ++ ['['], ']', by simp [pieces], rfl⟩
    | false =>
      have hp := words p (by simp)
      obtain ⟨q, qs, rfl⟩ := List.exists_cons_of_ne_nil (l := ps) (by rintro rfl; simp at two)
      rw [pieces, List.cons_append, toList_dotted, List.flatMap_append]
      simpa using inkedEnd_token hp.1 hp.2
        (q.toList ++ qs.flatMap (fun r => '.' :: r.toList) ++ ['.'])
  | list e => exact ⟨[], e.val.text.toList ++ ['['], ']', by simp [pieces], rfl⟩
  | map k v =>
    rw [pieces, mapPieces]
    exact ((inkedEnd_sign rfl).append _).cons _
  | function ps ret names types results ihs ihr =>
    rw [pieces, functionPieces]
    cases ret with
    | none =>
      rw [resultPieces, List.append_nil]
      exact ((inkedEnd_sign rfl).append _).cons _
    | some t =>
      have ht := (ihr t rfl).append (sign ':' ++ [.gap true])
      rw [resultPieces]
      exact (ht.append _).cons _
  | table slots =>
    rw [pieces, tablePieces]
    exact ((inkedEnd_sign rfl).append _).cons _
  | union ms two flat results types ih =>
    obtain ⟨ms, m, rfl⟩ := List.eq_nil_or_concat' ms |>.resolve_left (by rintro rfl; simp at two)
    rw [pieces, memberPieces_eq_map, List.map_append]
    obtain ⟨before, hb⟩ := exists_separated_concat '|' false (ms.map pieces) m.pieces
    rw [List.map_singleton, hb]
    exact (ih m (by simp)).append _

end LuaType
end Annodoc
