import Annodoc.FileSystem
import Annodoc.Glob.Pattern

/-!
# Walks along a pattern

The paths of a file system that a pattern stands for. A walk takes the pattern component by
component; each stands for one name, and `**` for any chain of directories. Found paths are
spelled as the walk goes: a name follows a leading dot without it, and all else is kept.
-/

namespace Annodoc.Glob

/-- Whether a component is `**`, which stands for any chain of directories. -/
def Pattern.isComponents (p : Pattern) : Bool := p = [.components]

/-- A path with one more name, which follows the working directory without a slash. -/
def extend (path name : String) : String :=
  if Path.isCurrent path then name else Path.join path name

/-- What is in a directory; nothing is in a file. -/
def entriesAt (fs : FileSystem) (path : String) : List (String × Node) :=
  (fs.node? path).elim [] Node.entries

mutual

/-- The last names and the paths of everything inside a node, a directory before what it holds. The
path of an entry is what `spell` makes of its name. -/
def inside (spell : String → String) : Node → List (String × String)
  | .file _ => []
  | .dir es => insideEntries spell es

/-- A directory whose path is too long for the system holds nothing. -/
def insideEntries (spell : String → String) : List (String × Node) → List (String × String)
  | [] => []
  | (name, node) :: es =>
    let path := spell name
    let below := if FileSystem.pathLimit < path.utf8ByteSize then [] else
      inside (Path.join path) node
    (name, path) :: below ++ insideEntries spell es

end

/-- The last names and the paths of everything below a directory. -/
def pathsBelow (fs : FileSystem) (path : String) : List (String × String) :=
  (fs.node? path).elim [] (inside (extend path))

/-- The two dots of a directory, which only a pattern with a leading dot stands for. The parent comes
first. -/
def dots (fs : FileSystem) (p : Pattern) (path : String) : List String :=
  if p.head? = some (.char '.') ∧ fs.isDir path then
    (["..", "."].filter fun dot => p.accepts dot.toList).map (Path.join path)
  else []

/-- The paths that a chain of components leads to from `path`. -/
def walk (fs : FileSystem) : List Pattern → String → List String
  | [], path => [path]
  | p :: rest, path =>
    match p.literal? with
    | some name =>
      let next := extend path name
      let found := if name = "." ∨ name = ".." then fs.isDir path else fs.isThere next
      if found then walk fs rest next else []
    | none =>
      if p.isComponents then
        match rest with
        | [] => ((pathsBelow fs path).map Prod.snd).filter fs.isDir
        | q :: rest => ((pathsBelow fs path).filter fun (name, _) => q.accepts name.toList).flatMap
            fun (_, next) => walk fs rest next
      else
        let names := ((entriesAt fs path).map Prod.fst).filter fun name => p.accepts name.toList
        (dots fs p path ++ names.map (extend path)).flatMap (walk fs rest)

/-- Chains of directories that follow each other are one. -/
def collapse : List Pattern → List Pattern
  | [] => []
  | p :: rest =>
    if p.isComponents ∧ rest.head?.any Pattern.isComponents then collapse rest
    else p :: collapse rest

/-- The components of a pattern's text. A final slash ends the last one. -/
def componentTexts (text : String) : List String :=
  let parts := Path.steps (if Path.isAbsolute text then String.ofList (text.toList.drop 1) else text)
  if parts = [""] then parts else if parts.getLast? = some "" then parts.dropLast else parts

/-- The paths that a pattern's text stands for. With a final slash they are directories. -/
def paths (fs : FileSystem) (text : String) : Except PatternError (List String) := do
  let _ ← Pattern.parse text
  let components ← (componentTexts text).mapM Pattern.parse
  let found := walk fs (collapse components) (if Path.isAbsolute text then "/" else ".")
  .ok (if text.toList.getLast? = some '/' then found.filter fs.isDir else found)

end Annodoc.Glob
