import Annodoc.Path

/-!
# File systems

A snapshot of a file system: a tree of directories and files without links, and the working
directory in it. The system refuses paths and names that are too long, whatever the tree holds.
-/

namespace Annodoc

/-- Why the system refuses to open a path. -/
inductive SystemError where
  | notFound
  | notPermitted
  | notDirectory
  | isDirectory
  | nameTooLong
  | zeroInName
  deriving DecidableEq, Repr

def SystemError.message : SystemError → String
  | .notFound => "No such file or directory (os error 2)"
  | .notPermitted => "Permission denied (os error 13)"
  | .notDirectory => "Not a directory (os error 20)"
  | .isDirectory => "Is a directory (os error 21)"
  | .nameTooLong => "File name too long (os error 36)"
  | .zeroInName => "file name contained an unexpected NUL byte"

/-- What a file holds, unless nobody may read or write it. -/
inductive Content where
  | bytes (data : List UInt8)
  | locked
  deriving DecidableEq, Repr

inductive Node where
  | file (content : Content)
  | dir (entries : List (String × Node))
  deriving Repr

namespace Node

def child? (name : String) (entries : List (String × Node)) : Option Node :=
  (entries.find? (·.1 = name)).map Prod.snd

/-- The entry takes the place of one of its name, or comes last. -/
def setEntry (name : String) (node : Node) : List (String × Node) → List (String × Node)
  | [] => [(name, node)]
  | (n, old) :: rest =>
    if n = name then (n, node) :: rest else (n, old) :: setEntry name node rest

def entries : Node → List (String × Node)
  | .dir es => es
  | .file _ => []

/-- The node at a chain of names. -/
def at? : List String → Node → Option Node
  | [], node => some node
  | name :: names, .dir es => (child? name es).bind (at? names)
  | _ :: _, .file _ => none

/-- Puts a node at a chain of names. Directories on the way are made where they are missing. -/
def insert (new : Node) : List String → Node → Node
  | [], _ => new
  | name :: names, node =>
    let below := (child? name node.entries).getD (.dir [])
    .dir (setEntry name (insert new names below) node.entries)

end Node

/-- The tree, and the chain of names of the working directory. -/
structure FileSystem where
  root : Node
  home : List String

namespace FileSystem

/-- A file system that holds nothing but the working directory. -/
def empty (home : List String) : FileSystem := ⟨Node.insert (.dir []) home (.dir []), home⟩

/-- Puts a file at a chain of names from the root. -/
def addFile (fs : FileSystem) (names : List String) (content : Content) : FileSystem :=
  { fs with root := Node.insert (.file content) names fs.root }

/-- Makes a directory at a chain of names from the root, unless something is there. -/
def addDir (fs : FileSystem) (names : List String) : FileSystem :=
  if (fs.root.at? names).isSome then fs
  else { fs with root := Node.insert (.dir []) names fs.root }

/-- The bytes that a path may take. -/
def pathLimit : Nat := 4095

/-- The bytes that a name may take. -/
def nameLimit : Nat := 255

/-- Whether the system looks at a path at all. -/
def checkPath (path : String) : Except SystemError Unit :=
  if '\x00' ∈ path.toList then .error .zeroInName
  else if path = "" then .error .notFound
  else if pathLimit < path.utf8ByteSize then .error .nameTooLong
  else .ok ()

/-- A way from the root down to a node: the entries on it, the last one first. -/
abbrev Way := List (String × Node)

/-- The node that a way ends at. -/
def nodeAt (fs : FileSystem) : Way → Node
  | [] => fs.root
  | (_, node) :: _ => node

def Way.names (way : Way) : List String := (way.map Prod.fst).reverse

/-- One step of a path from where a way ends. No step leads above the root. -/
def enter (fs : FileSystem) (way : Way) (step : String) : Except SystemError Way :=
  match fs.nodeAt way with
  | .dir es =>
    if step = "" ∨ step = "." then .ok way
    else if step = ".." then .ok way.tail
    else if nameLimit < step.utf8ByteSize then .error .nameTooLong
    else match Node.child? step es with
      | some node => .ok ((step, node) :: way)
      | none => .error .notFound
  | .file _ => .error .notDirectory

/-- The steps from the root to where a path starts. -/
def start (fs : FileSystem) (path : String) : List String :=
  if Path.isAbsolute path then [] else fs.home

/-- The way along a path. -/
def locate (fs : FileSystem) (path : String) : Except SystemError Way := do
  checkPath path
  (fs.start path ++ Path.steps path).foldlM fs.enter []

def node? (fs : FileSystem) (path : String) : Option Node :=
  (fs.locate path).toOption.map fs.nodeAt

def isFile (fs : FileSystem) (path : String) : Bool :=
  match fs.node? path with
  | some (.file _) => true
  | _ => false

def isDir (fs : FileSystem) (path : String) : Bool :=
  match fs.node? path with
  | some (.dir _) => true
  | _ => false

def isThere (fs : FileSystem) (path : String) : Bool := (fs.node? path).isSome

/-- The bytes of the file at a path. -/
def read (fs : FileSystem) (path : String) : Except SystemError (List UInt8) := do
  let way ← fs.locate path
  match fs.nodeAt way with
  | .file (.bytes data) => .ok data
  | .file .locked => .error .notPermitted
  | .dir _ => .error .isDirectory

/-- Writes a file, which is made if it is missing in a directory that is there. -/
def write (fs : FileSystem) (path : String) (data : List UInt8) :
    Except SystemError FileSystem := do
  checkPath path
  let steps := Path.steps path
  let kept := (steps.reverse.dropWhile (· = "")).reverse
  match kept.getLast? with
  | none => .error .isDirectory
  | some last => do
    let way ← (fs.start path ++ kept.dropLast).foldlM fs.enter []
    match fs.nodeAt way with
    | .file _ => .error .notDirectory
    | .dir es =>
      if kept.length < steps.length ∨ last = "." ∨ last = ".." then .error .isDirectory
      else if nameLimit < last.utf8ByteSize then .error .nameTooLong
      else match Node.child? last es with
        | some (.dir _) => .error .isDirectory
        | some (.file .locked) => .error .notPermitted
        | _ =>
          .ok { fs with root := Node.insert (.file (.bytes data)) (way.names ++ [last]) fs.root }

end FileSystem
end Annodoc
