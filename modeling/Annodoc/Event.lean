import Annodoc.Comment.Outcome

/-!
# Events

What the work reports while it goes on, beside its results.
-/

namespace Annodoc

inductive Level where
  | trace
  | debug
  | warn
  deriving DecidableEq, Repr

def Level.text : Level → String
  | .trace => "TRACE"
  | .debug => "DEBUG"
  | .warn => "WARN"

/-- A detail of an event. -/
inductive Detail where
  | text (s : String)
  | number (n : Nat)
  deriving DecidableEq, Repr

inductive Event where
  | omitted (line : Nat) (why : Comment.Omission)
  | parsed (path : String) (functions classes aliases : Nat)
  | failed (path : String) (line : Nat) (message : String)
  | noMatch (pattern : String)
  | lossy (path : String)
  deriving DecidableEq, Repr

namespace Event

def level : Event → Level
  | .omitted .. => .trace
  | .parsed .. => .debug
  | .failed .. | .noMatch .. | .lossy .. => .warn

def message : Event → String
  | .omitted _ .noValues => "alias block has no enumerated values"
  | .omitted _ (.undocumented _) => "function block has no `@param` or `@return`, skipping"
  | .omitted _ .noDeclaration => "ignoring annotation block"
  | .parsed .. => "parsed file"
  | .failed _ _ message => message
  | .noMatch pattern => "no files matched: " ++ pattern
  | .lossy _ => "file is not valid UTF-8, decoding lossily"

/-- The details by their names. -/
def details : Event → List (String × Detail)
  | .omitted line (.undocumented name) => [("line", .number line), ("function", .text name)]
  | .omitted line _ => [("line", .number line)]
  | .parsed path functions classes aliases =>
    [("path", .text path), ("functions", .number functions), ("classes", .number classes),
      ("aliases", .number aliases)]
  | .failed path line _ => [("path", .text path), ("line", .number line)]
  | .noMatch _ => []
  | .lossy path => [("path", .text path)]

/-- The events of reading a source: one for each block that documents nothing. -/
def ofOutcomes (outcomes : List Comment.Outcome) : List Event :=
  (outcomes.filterMap Comment.Outcome.omission?).map fun (line, why) => .omitted line why

/-- The events of a file that was read: its counts, then its failures. -/
def ofFile (path : String) (file : FileDoc) : List Event :=
  .parsed path file.functions.length file.classes.length file.aliases.length ::
    file.failures.map fun f => .failed path f.line f.message

end Event
end Annodoc
