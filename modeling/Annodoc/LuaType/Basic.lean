/-!
# Lua types

Type expressions, as annotations hold them.
-/

namespace Annodoc

/-- The types that have a name of their own. -/
inductive Keyword where
  | nil
  | string
  | integer
  | boolean
  | number
  | table
  | any
  deriving DecidableEq, Repr

def Keyword.text : Keyword → String
  | .nil => "nil"
  | .string => "string"
  | .integer => "integer"
  | .boolean => "boolean"
  | .number => "number"
  | .table => "table"
  | .any => "any"

def Keyword.all : List Keyword := [.nil, .string, .integer, .boolean, .number, .table, .any]

def Keyword.ofText? (word : String) : Option Keyword := Keyword.all.find? (·.text = word)

theorem Keyword.mem_all (k : Keyword) : k ∈ Keyword.all := by cases k <;> decide

/-- The types that have lists: every keyword but `nil`. -/
abbrev Element := { k : Keyword // k ≠ .nil }

def Keyword.element? (k : Keyword) : Option Element :=
  if h : k ≠ .nil then some ⟨k, h⟩ else none

inductive Quote where
  | single
  | double
  deriving DecidableEq, Repr

def Quote.char : Quote → Char
  | .single => '\''
  | .double => '"'

/-- A named place of a function or a table, which holds an `α`. -/
structure Slot (α : Type) where
  name : String
  optional : Bool
  type : α
  deriving DecidableEq, Repr

inductive LuaType where
  | keyword (k : Keyword)
  | literal (quote : Quote) (text : String)
  | number (digits : String)
  /-- A type of the user: the parts of its dotted name, and whether it is a list of them. -/
  | named (parts : List String) (isList : Bool)
  | list (element : Element)
  | map (key value : LuaType)
  | function (params : List (Slot LuaType)) (returns : Option LuaType)
  | table (slots : List (Slot LuaType))
  | union (members : List LuaType)
  deriving Repr

namespace LuaType

instance : Inhabited LuaType := ⟨.keyword .any⟩

/-- The members of a union; any other type is its only member. -/
def alternatives : LuaType → List LuaType
  | .union ms => ms
  | t => [t]

def isNil : LuaType → Bool
  | .keyword .nil => true
  | _ => false

/-- Whether `nil` is a member. -/
def allowsNil (t : LuaType) : Bool := t.alternatives.any isNil

/-- The type of an optional place: `nil`, then the members of the type itself. -/
def orNil (t : LuaType) : LuaType := .union (.keyword .nil :: t.alternatives)

/-- The type that a place has which is written with the type `t`. -/
def ofPlace (optional : Bool) (t : LuaType) : LuaType := if optional then t.orNil else t

/-- The type with one member, or the union of more. -/
def ofAlternatives : List LuaType → LuaType
  | [t] => t
  | ms => .union ms

end LuaType
end Annodoc
