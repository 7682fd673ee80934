import Annodoc.Grammar.Mismatch
import Annodoc.LuaType.Basic

/-!
# Documentation

What annotations document: functions, classes, and aliases of text values, file by file.
-/

namespace Annodoc

/-- A parameter of a function, or a part of one that is written out below it. -/
structure Param where
  name : String
  type : LuaType
  desc : String
  subparams : List Param := []
  deriving Repr

structure Return where
  type : LuaType
  desc : String
  deriving Repr

structure FunctionDoc where
  name : String
  summary : String
  params : List Param
  returns : List Return
  sample : Option String
  note : Option String
  isPrivate : Bool
  isDeprecated : Bool
  /-- The comment lines as they stand in the source. -/
  annotation : List String := []
  /-- The line of the first of them, counted from 1. -/
  line : Nat := 0
  deriving Repr

/-- Who may use a field. -/
inductive Scope where
  | scopePrivate
  | scopeProtected
  | scopePackage
  | scopePublic
  deriving DecidableEq, Repr

def Scope.text : Scope → String
  | .scopePrivate => "private"
  | .scopeProtected => "protected"
  | .scopePackage => "package"
  | .scopePublic => "public"

def Scope.all : List Scope := [.scopePrivate, .scopeProtected, .scopePackage, .scopePublic]

def Scope.ofText? (word : String) : Option Scope := Scope.all.find? (·.text = word)

/-- How the values of a field are reached: by a name, or by any key of a type. -/
inductive FieldKey where
  | named (name : String) (scope : Option Scope)
  | keyed (key : LuaType)
  deriving Repr

structure Field where
  key : FieldKey
  type : LuaType
  desc : String
  deriving Repr

/-- A named field that everybody may use, as a parameter. A field without a scope is public. -/
def Field.publicParam? (f : Field) : Option Param :=
  match f.key with
  | .named name none => some ⟨name, f.type, f.desc, []⟩
  | .named name (some .scopePublic) => some ⟨name, f.type, f.desc, []⟩
  | _ => none

structure ClassDoc where
  name : String
  parent : Option String
  /-- The fields of an opaque class never stand for a parameter. -/
  isOpaque : Bool
  isExact : Bool
  desc : String
  fields : List Field
  deriving Repr

/-- The public named fields of a class, in order. -/
def ClassDoc.publicParams (c : ClassDoc) : List Param := c.fields.filterMap Field.publicParam?

structure Choice where
  value : String
  desc : String
  deriving DecidableEq, Repr

/-- A name for a closed set of text values. -/
structure AliasDoc where
  name : String
  values : List Choice
  deriving DecidableEq, Repr

/-- What a block that failed would have documented. -/
inductive Subject where
  | functionNamed (name : String)
  | someClass
  deriving DecidableEq, Repr

/-- A comment block outside the grammar: the line where it fails, counted from 1 in the source, and
its lines with the one that follows them. -/
structure BlockFailure where
  subject : Subject
  error : Mismatch
  line : Nat
  lines : List String
  deriving DecidableEq, Repr

def BlockFailure.message (f : BlockFailure) : String :=
  match f.subject with
  | .functionNamed name => "function `" ++ name ++ "`: " ++ f.error.message
  | .someClass => "class: " ++ f.error.message

/-- The message and the lines, each with its line end. -/
def BlockFailure.report (f : BlockFailure) : String :=
  String.join ((f.message :: f.lines).map (· ++ "\n"))

/-- What one source file documents. -/
structure FileDoc where
  functions : List FunctionDoc
  classes : List ClassDoc
  aliases : List AliasDoc
  failures : List BlockFailure
  deriving Repr

def FileDoc.isEmpty (f : FileDoc) : Bool :=
  f.functions.isEmpty && f.classes.isEmpty && f.aliases.isEmpty && f.failures.isEmpty

end Annodoc
