import Annodoc.Catalog.Basic
import Annodoc.Event
import Annodoc.Glob.Walk
import Annodoc.RunFailure
import Annodoc.Text.Utf8

/-!
# Projects

The source files of a project: which ones the given paths select, and what they document.
-/

namespace Annodoc

/-- What to look for in directories, and the patterns for what to leave out. -/
structure SearchOptions where
  extension : String := "lua"
  excluded : List Glob.Pattern := []

namespace SearchOptions

/-- Leaves out the paths that any of the patterns stands for. -/
def without (options : SearchOptions) (patterns : List String) :
    Except RunFailure SearchOptions := do
  let parsed ← patterns.mapM fun text =>
    (Glob.Pattern.parse text).mapError (.invalidExclude text)
  .ok { options with excluded := options.excluded ++ parsed }

def leavesOut (options : SearchOptions) (path : String) : Bool :=
  options.excluded.any fun p => p.accepts path.toList

/-- The pattern for the files below a directory that have the extension. -/
def directoryPattern (options : SearchOptions) (path : String) : String :=
  let root := ((Glob.escape path).toList.reverse.dropWhile (· = '/')).reverse
  String.ofList root ++ "/**/*." ++ options.extension

end SearchOptions

/-- The files that paths stand for, and the events of looking for them. -/
structure Selection where
  files : List String
  events : List Event

namespace Selection

/-- A file stands for itself, even where it would be left out; a directory stands for the files
below it; all else is a pattern. -/
def ofPath (fs : FileSystem) (options : SearchOptions) (path : String) :
    Except RunFailure Selection := do
  if fs.isFile path then .ok ⟨[path], []⟩ else
    let pattern := if fs.isDir path then options.directoryPattern path else path
    let found ← (Glob.paths fs pattern).mapError (.invalidGlob pattern)
    let files := found.filter fun p => fs.isFile p && !options.leavesOut p
    .ok ⟨files, if files.isEmpty then [.noMatch pattern] else []⟩

/-- Of paths with the same components that follow each other, the first. -/
def dropRepeats : List Path.Split → List Path.Split
  | [] => []
  | path :: rest => path :: dropRepeats (rest.dropWhile fun p => p.components = path.components)
termination_by paths => paths.length
decreasing_by exact Nat.lt_succ_of_le (List.dropWhile_suffix _).length_le

/-- The files that the paths stand for, in the order of components and without repetition. -/
def ofPaths (fs : FileSystem) (options : SearchOptions) (paths : List String) :
    Except RunFailure Selection := do
  let selections ← paths.mapM (ofPath fs options)
  let found := (selections.flatMap files).map Path.split
  let sorted := found.mergeSort fun p q => (p.compare q).isLE
  .ok ⟨(dropRepeats sorted).map Path.Split.path, selections.flatMap events⟩

end Selection

/-- A source file that was read: whether bytes of it had to be replaced, and the outcomes of its
blocks. -/
structure Reading where
  lossy : Bool
  outcomes : List Comment.Outcome

namespace Reading

def ofBytes (bytes : List UInt8) : Reading where
  lossy := !Text.Utf8.isValid bytes
  outcomes := Comment.outcomes (Comment.sourceLines (Text.Utf8.decodeLossy bytes))

/-- The reading of the file at a path. -/
def ofPath (fs : FileSystem) (path : String) : Except RunFailure Reading :=
  match fs.read path with
  | .ok bytes => .ok (.ofBytes bytes)
  | .error e => .error (.unreadable path e)

def doc (r : Reading) : FileDoc := Comment.fileOfOutcomes r.outcomes

def events (path : String) (r : Reading) : List Event :=
  (if r.lossy then [.lossy path] else []) ++ Event.ofOutcomes r.outcomes

end Reading

/-- The selected files with their readings, and the events of selecting them. -/
structure Project where
  files : List (String × Reading)
  selection : List Event

namespace Project

/-- Selects the files that the paths stand for, and reads them all. -/
def load (fs : FileSystem) (options : SearchOptions) (paths : List String) :
    Except RunFailure Project := do
  let selection ← Selection.ofPaths fs options paths
  let files ← selection.files.mapM fun path => do
    let reading ← Reading.ofPath fs path
    .ok (path, reading)
  .ok ⟨files, selection.events⟩

/-- The catalog of the files, added in the order of selection. -/
def catalog (p : Project) : Catalog := .ofFiles (p.files.map fun (path, r) => (path, r.doc))

/-- The events of selecting the files, then those of filling the catalog with them. -/
def events (p : Project) : List Event :=
  p.selection ++ p.files.flatMap fun (path, r) => Event.ofFile path r.doc

/-- The events of reading the single files. -/
def readingEvents (p : Project) : List Event :=
  p.files.flatMap fun (path, r) => r.events path

end Project
end Annodoc
