import Annodoc.Catalog.Export
import Annodoc.Catalog.Report

/-!
# Output formats

The forms that a catalog can be written in, and its text in each of them.
-/

namespace Annodoc

inductive Format where
  | report
  | json
  deriving DecidableEq, Repr

def Format.ofName? : String → Option Format
  | "report" | "text" => some .report
  | "json" => some .json
  | _ => none

/-- The text of a catalog, with its private functions or without them. -/
def Catalog.write (c : Catalog) (format : Format) (withPrivate : Bool) : String :=
  match format with
  | .report => c.report withPrivate
  | .json => c.exportText withPrivate

end Annodoc
