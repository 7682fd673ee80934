import Annodoc.CommandLine

/-!
# The program

The program: it takes a snapshot of what the arguments name, runs on it, and does to the real files
what the run did to the snapshot. Links to directories are not followed.
-/

namespace Annodoc.Program
open CommandLine

/-- All bytes of a stream. -/
partial def readAll (stream : IO.FS.Stream) (before : ByteArray) : IO ByteArray := do
  let more ← stream.read 65536
  if more.isEmpty then return before else readAll stream (before ++ more)

/-- The chain of names of a path, by its text alone. -/
def namesOf (home : List String) (path : String) : List String :=
  (Path.steps path).foldl (fun names step =>
      if step = "" ∨ step = "." then names
      else if step = ".." then names.dropLast
      else names ++ [step])
    (if Path.isAbsolute path then [] else home)

/-- The path up to its first step with a wildcard. -/
def literalPart (path : String) : String :=
  "/".intercalate ((Path.steps path).takeWhile fun step =>
    step.toList.all fun c => c ≠ '*' ∧ c ≠ '?' ∧ c ≠ '[')

/-- Adds the files and directories below a chain of names, without what the files hold. -/
partial def addShape (fs : FileSystem) (names : List String) : IO FileSystem := do
  let path ← IO.FS.realPath ("/" ++ "/".intercalate names)
  if ← path.isDir then
    let mut fs := fs.addDir names
    for entry in ← path.readDir do
      if (← entry.path.symlinkMetadata).type == .symlink && (← entry.path.isDir) then continue
      fs ← addShape fs (names ++ [entry.fileName])
    return fs
  else if ← path.pathExists then return fs.addFile names (.bytes [])
  else return fs

/-- The bytes of a file, unless the system refuses them. -/
def contentOf (path : String) : IO Content := do
  try return .bytes (← IO.FS.readBinFile path).toList
  catch _ => return .locked

/-- The part of the real file system that a run with the given options can see. -/
def snapshot (o : Options) : IO FileSystem := do
  let home := namesOf [] (← IO.currentDir).toString
  let mut fs := FileSystem.empty home
  for path in o.paths do
    for seen in [path, literalPart path] do
      fs ← try addShape fs (namesOf home seen) catch _ => pure fs
  if let some path := o.output then
    let names := namesOf home path
    for dir in [names.dropLast, names] do
      let shown := "/" ++ "/".intercalate dir
      if ← (← IO.FS.realPath "/").join shown |>.isDir then fs := fs.addDir dir
  if let .ok found := o.searchOptions >>= fun options => Selection.ofPaths fs options o.paths then
    for path in found.files do
      fs := fs.addFile (namesOf home path) (← contentOf path)
  return fs

/-- Shows an event, if it is a warning. -/
def showEvent (e : Event) : IO Unit := do
  if e.level = .warn then
    let details := e.details.map fun (key, d) => " " ++ key ++ "=" ++ match d with
      | .text s => s
      | .number n => toString n
    IO.eprintln (e.level.text ++ " " ++ e.message ++ String.join details)

/-- Runs with the given options and tells the exit code. -/
def perform (o : Options) : IO UInt32 := do
  let input ← if o.paths.isEmpty then readAll (← IO.getStdin) .empty else pure .empty
  let result := run o (← snapshot o) input.toList
  result.events.forM showEvent
  IO.print result.printed
  let mut failure := result.failure
  if let some (path, text) := result.written then
    try IO.FS.writeFile path text
    catch _ => failure := some (.unwritable path .notPermitted)
  IO.eprint (failure.elim "" RunFailure.report)
  return if failure.isSome then 1 else 0

end Annodoc.Program

open Annodoc CommandLine in
def main (arguments : List String) : IO UInt32 := do
  match Options.ofArguments arguments with
  | .ok options => Program.perform options
  | .error .version => IO.print versionText; return 0
  | .error .help => IO.println helpText; return 0
  | .error .usage => IO.eprintln helpText; return 2
