import Annodoc.Json.Value

/-!
# Members of JSON values

What a reader of JSON takes out of an object: the value of a member by its key, as an array, a text,
a number or a flag. A reader that finds nothing of the kind goes on with nothing.
-/

namespace Annodoc.Json.Value

/-- The first member of an object that has the key. -/
def member? (key : String) : Value → Option Value
  | .object members => (members.find? (·.1 = key)).map Prod.snd
  | _ => none

def itemsAt (key : String) (v : Value) : List Value :=
  match v.member? key with
  | some (.array items) => items
  | _ => []

def textAt (key : String) (v : Value) : String :=
  match v.member? key with
  | some (.text s) => s
  | _ => ""

def numberAt (key : String) (v : Value) : Nat :=
  match v.member? key with
  | some (.number n) => n
  | _ => 0

def flagAt (key : String) (v : Value) : Bool :=
  match v.member? key with
  | some (.bool b) => b
  | _ => false

end Annodoc.Json.Value
