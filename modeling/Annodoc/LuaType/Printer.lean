import Annodoc.LuaType.Basic

/-!
# The text of a type

The text of a type expression, which has one blank after every comma and colon and no other.
-/

namespace Annodoc

/-- A slot whose type is already written. -/
def Slot.text (s : Slot String) : String :=
  s.name ++ (if s.optional then "?" else "") ++ ": " ++ s.type

namespace LuaType

mutual

def text : LuaType → String
  | .keyword k => k.text
  | .literal q s => String.singleton q.char ++ s ++ String.singleton q.char
  | .number digits => digits
  | .named parts isList => ".".intercalate parts ++ if isList then "[]" else ""
  | .list e => e.val.text ++ "[]"
  | .map key value => "table<" ++ key.text ++ ", " ++ value.text ++ ">"
  | .function params returns =>
    "fun(" ++ ", ".intercalate (slotTexts params) ++ ")" ++ returnText returns
  | .table slots => "\x7b" ++ ", ".intercalate (slotTexts slots) ++ "\x7d"
  | .union members => "|".intercalate (texts members)

def texts : List LuaType → List String
  | [] => []
  | t :: ts => t.text :: texts ts

def slotTexts : List (Slot LuaType) → List String
  | [] => []
  | ⟨name, optional, t⟩ :: slots => Slot.text ⟨name, optional, t.text⟩ :: slotTexts slots

def returnText : Option LuaType → String
  | none => ""
  | some t => ": " ++ t.text

end

theorem texts_eq_map (ts : List LuaType) : texts ts = ts.map text := by
  induction ts with
  | nil => rfl
  | cons t ts ih => simp [texts, ih]

theorem slotTexts_eq_map (slots : List (Slot LuaType)) :
    slotTexts slots = slots.map fun s => Slot.text ⟨s.name, s.optional, s.type.text⟩ := by
  induction slots with
  | nil => rfl
  | cons s slots ih => simp [slotTexts, ih]

end LuaType

instance : ToString LuaType := ⟨LuaType.text⟩

end Annodoc
