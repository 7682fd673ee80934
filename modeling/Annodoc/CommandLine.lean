import Annodoc.Catalog.Format
import Annodoc.Project

/-!
# The command line

The command line: what its arguments ask for, and the run on a file system. Arguments are read from
left to right, and the first one that ends the reading decides.
-/

namespace Annodoc.CommandLine
open Text

/-- What a run is asked to do. -/
structure Options where
  paths : List String := []
  format : Option String := none
  output : Option String := none
  strict : Bool := false
  showPrivate : Bool := false
  extension : Option String := none
  exclude : List String := []
  deriving DecidableEq, Repr

/-- Why the reading of arguments ends before the last one. -/
inductive Halt where
  | help
  | version
  | usage
  deriving DecidableEq, Repr

/-- What is set by an argument of its own. -/
inductive Flag where
  | strict
  | showPrivate
  | help
  | version
  deriving DecidableEq, Repr

/-- What takes a value. -/
inductive Setting where
  | format
  | output
  | extension
  | exclude
  deriving DecidableEq, Repr

def longName? : String → Option (Flag ⊕ Setting)
  | "strict" => some (.inl .strict)
  | "show-private" => some (.inl .showPrivate)
  | "help" => some (.inl .help)
  | "version" => some (.inl .version)
  | "format" => some (.inr .format)
  | "output" => some (.inr .output)
  | "ext" => some (.inr .extension)
  | "exclude" => some (.inr .exclude)
  | _ => none

def shortName? : Char → Option (Flag ⊕ Setting)
  | 'h' => some (.inl .help)
  | 'V' => some (.inl .version)
  | 'f' => some (.inr .format)
  | 'o' => some (.inr .output)
  | _ => none

namespace Options

/-- No flag may be given twice. -/
def setFlag (o : Options) : Flag → Except Halt Options
  | .strict => if o.strict then .error .usage else .ok { o with strict := true }
  | .showPrivate => if o.showPrivate then .error .usage else .ok { o with showPrivate := true }
  | .help => .error .help
  | .version => .error .version

/-- Only exclusions may be given more than once. The path of the output is not empty. -/
def set (o : Options) (setting : Setting) (value : String) : Except Halt Options :=
  match setting with
  | .format => if o.format.isSome then .error .usage else .ok { o with format := some value }
  | .output =>
    if o.output.isSome ∨ value = "" then .error .usage else .ok { o with output := some value }
  | .extension =>
    if o.extension.isSome then .error .usage else .ok { o with extension := some value }
  | .exclude => .ok { o with exclude := o.exclude ++ [value] }

def addPath (o : Options) (path : String) : Except Halt Options :=
  if path = "" then .error .usage else .ok { o with paths := o.paths ++ [path] }

/-- Sets what takes the next argument as its value. That one must not begin with a dash, unless it
is nothing else. -/
def setNext (o : Options) (setting : Setting) : List String → Except Halt Options
  | [] => .error .usage
  | value :: _ =>
    if value.toList.head? = some '-' ∧ value ≠ "-" then .error .usage else o.set setting value

/-- The text after an equals sign, if there is one, and the text before it. -/
def splitEquals (cs : List Char) : List Char × Option (List Char) :=
  match cs.dropWhile (· ≠ '=') with
  | [] => (cs, none)
  | _ :: value => (cs.takeWhile (· ≠ '='), some value)

/-- The letters after one dash. One that takes a value takes the letters behind it, or the next
argument if there are none; tells whether it did. -/
def addLetters (next : List String) : Options → List Char → Except Halt (Options × Bool)
  | o, [] => .ok (o, false)
  | o, c :: cs =>
    match shortName? c with
    | none => .error .usage
    | some (.inl flag) => do
      let o ← o.setFlag flag
      addLetters next o cs
    | some (.inr setting) =>
      match cs with
      | [] => do
        let o ← o.setNext setting next
        .ok (o, true)
      | '=' :: value => do
        let o ← o.set setting (String.ofList value)
        .ok (o, false)
      | value => do
        let o ← o.set setting (String.ofList value)
        .ok (o, false)

/-- What stands after two dashes; tells whether it took the next argument. -/
def addLong (next : List String) (o : Options) (cs : List Char) : Except Halt (Options × Bool) :=
  let (name, value) := splitEquals cs
  match longName? (String.ofList name), value with
  | none, _ => .error .usage
  | some (.inl _), some _ => .error .usage
  | some (.inl flag), none => do
    let o ← o.setFlag flag
    .ok (o, false)
  | some (.inr setting), some value => do
    let o ← o.set setting (String.ofList value)
    .ok (o, false)
  | some (.inr setting), none => do
    let o ← o.setNext setting next
    .ok (o, true)

/-- After two dashes alone, all arguments are paths. -/
def addArguments (o : Options) (arguments : List String) : Except Halt Options :=
  match arguments with
  | [] => .ok o
  | "--" :: rest => rest.foldlM addPath o
  | argument :: rest =>
    match argument.toList with
    | '-' :: '-' :: long => do
      let (o, tookNext) ← addLong rest o long
      if tookNext then addArguments o (rest.drop 1) else addArguments o rest
    | '-' :: c :: letters => do
      let (o, tookNext) ← addLetters rest o (c :: letters)
      if tookNext then addArguments o (rest.drop 1) else addArguments o rest
    | _ => do
      let o ← o.addPath argument
      addArguments o rest
termination_by arguments.length
decreasing_by all_goals simp only [List.length_cons, List.length_drop]; omega

def ofArguments (arguments : List String) : Except Halt Options :=
  addArguments {} arguments

end Options

/-- The path by which the source on standard input goes. -/
def inputPath : String := "<stdin>"

/-- What a run leaves behind: the text that it printed, the path and the text of the file that it
wrote, the failure that it ends with, the file system, and what it reported on its way. -/
structure Outcome where
  printed : String
  written : Option (String × String)
  failure : Option RunFailure
  files : FileSystem
  events : List Event

/-- A catalog, and the events of filling it. -/
structure Collected where
  catalog : Catalog
  events : List Event

/-- The source on standard input. -/
def ofInput (input : List UInt8) : Except RunFailure Collected :=
  match Utf8.decode? input with
  | some text =>
    let outcomes := Comment.outcomes (Comment.sourceLines text)
    .ok ⟨Catalog.empty.add inputPath (Comment.fileOfOutcomes outcomes), Event.ofOutcomes outcomes⟩
  | none => .error .unreadableInput

/-- What the options say about the search. Dots in front of an extension do not count. -/
def Options.searchOptions (o : Options) : Except RunFailure SearchOptions :=
  let extension := (o.extension.getD "lua").toList.dropWhile (· = '.')
  SearchOptions.without { extension := String.ofList extension } o.exclude

/-- The sources that the options name; without any path, the one on standard input. -/
def Options.sources (o : Options) (fs : FileSystem) (input : List UInt8) :
    Except RunFailure Collected :=
  if o.paths.isEmpty then ofInput input else do
    let options ← o.searchOptions
    let project ← Project.load fs options o.paths
    .ok ⟨project.catalog, project.readingEvents ++ project.events⟩

/-- The sources and their text in the asked format, which is looked at before anything is read. -/
def Options.rendering (o : Options) (fs : FileSystem) (input : List UInt8) :
    Except RunFailure (Collected × String) :=
  let name := o.format.getD "report"
  match Format.ofName? name with
  | none => .error (.unknownFormat name)
  | some format => do
    let sources ← o.sources fs input
    .ok (sources, sources.catalog.write format o.showPrivate)

/-- The verdict on the blocks that failed, which only a strict run gives. -/
def Options.verdict (o : Options) (catalog : Catalog) : Option RunFailure :=
  if o.strict ∧ 0 < catalog.failureCount then some (.failedBlocks catalog.failureCount) else none

/-- Reads the sources and writes the rendering to the output. -/
def run (o : Options) (fs : FileSystem) (input : List UInt8) : Outcome :=
  match o.rendering fs input with
  | .error failure => ⟨"", none, some failure, fs, []⟩
  | .ok (sources, text) =>
    match o.output with
    | none => ⟨text, none, o.verdict sources.catalog, fs, sources.events⟩
    | some path =>
      match fs.write path text.toUTF8.toList with
      | .ok after => ⟨"", some (path, text), o.verdict sources.catalog, after, sources.events⟩
      | .error e => ⟨"", none, some (.unwritable path e), fs, sources.events⟩

def Outcome.exitCode (r : Outcome) : Nat := if r.failure.isSome then 1 else 0

/-- What goes to the error output. -/
def Outcome.complaint (r : Outcome) : String := r.failure.elim "" RunFailure.report

def versionText : String := "luadoc 0.1.0\n"

def helpText : String := unlines
  ["Parse doc annotations in Lua source files", "",
    "Usage: luadoc [OPTIONS] [PATHS]...", "",
    "  [PATHS]...             files, directories or glob patterns; standard input if there are none",
    "  -f, --format FORMAT    report (default) or json",
    "  -o, --output FILE      write to this file instead of standard output",
    "      --strict           fail when an annotation block fails to parse",
    "      --show-private     include private functions",
    "      --ext EXT          extension of the files in directories (default: lua)",
    "      --exclude GLOB     skip the paths that the pattern matches; may be repeated",
    "  -h, --help             show this text",
    "  -V, --version          show the version"]

end Annodoc.CommandLine
