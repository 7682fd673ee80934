import Annodoc.Catalog.Basic

/-!
# The report

The report on a catalog: what each file documents, line by line, then all failures, then totals.
-/

namespace Annodoc

/-- Names and types of the parameters, types of the results, and marks. -/
def FunctionDoc.outline (f : FunctionDoc) : String :=
  f.name ++ "(" ++ ", ".intercalate (f.params.map fun p => p.name ++ ": " ++ p.type.text) ++ ")" ++
    (if f.returns.isEmpty then "" else
      " -> " ++ ", ".intercalate (f.returns.map fun r => r.type.text)) ++
    (if f.isPrivate then " [private]" else "") ++
    (if f.isDeprecated then " [deprecated]" else "")

def ClassDoc.outline (c : ClassDoc) : String :=
  "class " ++ c.name ++ c.parent.elim "" (" : " ++ ·) ++
    " (" ++ toString c.fields.length ++ " fields)" ++ if c.isOpaque then " [opaque]" else ""

def AliasDoc.outline (a : AliasDoc) : String :=
  "alias " ++ a.name ++ " = " ++ " | ".intercalate (a.values.map fun v => "'" ++ v.value ++ "'")

/-- Counts of functions, classes and aliases. -/
structure Counts where
  functions : Nat
  classes : Nat
  aliases : Nat
  deriving DecidableEq, Repr

def Counts.text (n : Counts) : String :=
  toString n.functions ++ " functions, " ++ toString n.classes ++ " classes, " ++
    toString n.aliases ++ " aliases"

namespace Catalog

def counts (withPrivate : Bool) (file : FileDoc) : Counts :=
  ⟨(shown withPrivate file).length, file.classes.length, file.aliases.length⟩

/-- The counts of all files together. -/
def totals (c : Catalog) (withPrivate : Bool) : Counts where
  functions := (c.files.flatMap fun (_, file) => shown withPrivate file).length
  classes := (c.files.flatMap fun (_, file) => file.classes).length
  aliases := (c.files.flatMap fun (_, file) => file.aliases).length

def fileLines (withPrivate : Bool) (path : String) (file : FileDoc) : List String :=
  (path ++ ": " ++ (counts withPrivate file).text) ::
    ((shown withPrivate file).map FunctionDoc.outline ++
      file.classes.map ClassDoc.outline ++ file.aliases.map AliasDoc.outline).map ("  " ++ ·)

def failureLine (path : String) (f : BlockFailure) : String :=
  path ++ ":" ++ toString f.line ++ ": " ++ f.message

/-- The failures after an empty line, or nothing. -/
def failureLines (c : Catalog) : List String :=
  if c.failures.isEmpty then [] else
    "" :: c.failures.map fun (path, f) => failureLine path f

def totalsLine (c : Catalog) (withPrivate : Bool) : String :=
  toString c.files.length ++ " files, " ++ (c.totals withPrivate).text ++ ", " ++
    toString c.failureCount ++ " errors"

def reportLines (c : Catalog) (withPrivate : Bool) : List String :=
  (c.files.flatMap fun (path, file) => fileLines withPrivate path file) ++ c.failureLines ++
    ["", c.totalsLine withPrivate]

/-- The lines of the report, each with its line end. -/
def report (c : Catalog) (withPrivate : Bool) : String :=
  String.join ((c.reportLines withPrivate).map (· ++ "\n"))

end Catalog

end Annodoc
