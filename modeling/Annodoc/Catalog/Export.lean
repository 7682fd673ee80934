import Annodoc.Catalog.ParamTree
import Annodoc.Json.Value

/-!
# The JSON export

The JSON export of a catalog. Parameters come with what their types name, so a reader has nothing
to look up.
-/

namespace Annodoc
open Json

/-- A member that is left out where there is no value. -/
def optionalMember (key : String) (value : Option Value) : List (String × Value) :=
  (value.map fun v => (key, v)).toList

/-- A member that is left out where the list is empty. -/
def listMember (key : String) (items : List Value) : List (String × Value) :=
  if items.isEmpty then [] else [(key, .array items)]

def Choice.toJson (v : Choice) : Value :=
  .object [("value", .text v.value), ("desc", .text v.desc)]

namespace ParamTree

mutual

def toJson (p : ParamTree) : Value :=
  match p with
  | ⟨name, type, desc, subparams, values⟩ =>
    .object ([("name", .text name), ("type", .text type), ("desc", .text desc)] ++
      listMember "subparams" (toJsonAll subparams) ++
      listMember "values" (values.map Choice.toJson))

def toJsonAll (ps : List ParamTree) : List Value :=
  match ps with
  | [] => []
  | p :: ps => p.toJson :: toJsonAll ps

end

end ParamTree

def Return.toJson (r : Return) : Value :=
  .object [("type", .text r.type.text), ("desc", .text r.desc)]

/-- The key type comes before the type, the scope comes last. -/
def Field.toJson (f : Field) : Value :=
  let type : List (String × Value) := [("type", .text f.type.text), ("desc", .text f.desc)]
  match f.key with
  | .named name scope =>
    .object (("name", .text name) :: type ++
      optionalMember "scope" (scope.map fun s => .text s.text))
  | .keyed key => .object (("name", .null) :: ("key_type", .text key.text) :: type)

def ClassDoc.toJson (c : ClassDoc) : Value :=
  .object (("name", .text c.name) :: optionalMember "parent" (c.parent.map .text) ++
    [("opaque", .bool c.isOpaque), ("exact", .bool c.isExact), ("desc", .text c.desc),
      ("fields", .array (c.fields.map Field.toJson))])

def AliasDoc.toJson (a : AliasDoc) : Value :=
  .object [("name", .text a.name), ("values", .array (a.values.map Choice.toJson))]

def BlockFailure.toJson (f : BlockFailure) : Value :=
  .object [("message", .text f.message), ("line", .number f.line),
    ("lines", .array (f.lines.map .text))]

namespace Catalog

def functionJson (c : Catalog) (f : FunctionDoc) : Value :=
  .object ([("name", .text f.name), ("line", .number f.line), ("summary", .text f.summary),
      ("params", .array ((c.views [] f.params).1.map ParamTree.toJson)),
      ("returns", .array (f.returns.map Return.toJson))] ++
    optionalMember "example" (f.sample.map .text) ++ optionalMember "note" (f.note.map .text) ++
    [("private", .bool f.isPrivate), ("deprecated", .bool f.isDeprecated)])

def fileJson (c : Catalog) (withPrivate : Bool) (path : String) (file : FileDoc) : Value :=
  .object [("path", .text path),
    ("functions", .array ((shown withPrivate file).map c.functionJson)),
    ("classes", .array (file.classes.map ClassDoc.toJson)),
    ("aliases", .array (file.aliases.map AliasDoc.toJson)),
    ("errors", .array (file.failures.map BlockFailure.toJson))]

def toJson (c : Catalog) (withPrivate : Bool) : Value :=
  .object [("files", .array (c.files.map fun (path, file) => c.fileJson withPrivate path file)),
    ("error_count", .number c.failureCount)]

/-- The text of the export, which ends with a line end. -/
def exportText (c : Catalog) (withPrivate : Bool) : String :=
  (c.toJson withPrivate).pretty 0 ++ "\n"

end Catalog
end Annodoc
