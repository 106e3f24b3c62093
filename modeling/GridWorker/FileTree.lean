import GridWorker.Archive.LittleEndian
import GridWorker.FilePath

/-! # File trees

A tree of directories and regular files, without links. Every file and directory has
one place, the names from the root down to it; the root itself is always a directory.
Paths are resolved segment by segment, relative ones from the working directory, and
each operation either changes one place or fails with the cause that a reader of the
path meets first.
-/
namespace GridWorker

inductive FileFault where
  | notFound
  | alreadyExists
  | notADirectory
  | isADirectory
  | nameTooLong
  | nulByte
deriving DecidableEq

def FileFault.message : FileFault → String
  | .notFound => "No such file or directory (os error 2)"
  | .alreadyExists => "File exists (os error 17)"
  | .notADirectory => "Not a directory (os error 20)"
  | .isADirectory => "Is a directory (os error 21)"
  | .nameTooLong => "File name too long (os error 36)"
  | .nulByte => "file name contained an unexpected NUL byte"

/-- The names from the root down to a file or directory. -/
abbrev Place := List String

inductive Node where
  | directory
  | file (content : Bytes)
deriving DecidableEq

structure FileTree where
  nodes : List (Place × Node)
  working : Place

namespace FileTree

def ofWorking (working : Place) : FileTree where
  nodes := (List.range working.length).map fun n => (working.take (n + 1), .directory)
  working := working

def get? (t : FileTree) (p : Place) : Option Node :=
  if p = [] then some .directory else t.nodes.lookup p

def put (t : FileTree) (p : Place) (n : Node) : FileTree :=
  { t with nodes := (p, n) :: t.nodes.filter (·.1 ≠ p) }

def start (t : FileTree) (absolute : Bool) : Place := if absolute then [] else t.working

def next (p : Place) (s : String) : Place :=
  if s = "." then p else if s = ".." then p.dropLast else p ++ [s]

/-- The place of a path, whatever is there. -/
def place (t : FileTree) (path : FilePath) : Place :=
  path.segments.foldl next (t.start path.absolute)

/-- The longest name of one segment, in bytes. -/
def maxName : Nat := 255

def maxPath : Nat := 4095

/-- Walks down from a directory; every segment must lead to a directory. -/
def walk (t : FileTree) (p : Place) : List String → Except FileFault Place
  | [] => .ok p
  | s :: rest =>
    if s = "." then t.walk p rest
    else if s = ".." then t.walk p.dropLast rest
    else if maxName < s.utf8ByteSize then .error .nameTooLong
    else match t.get? (p ++ [s]) with
      | some .directory => t.walk (p ++ [s]) rest
      | some (.file _) => .error .notADirectory
      | none => .error .notFound

/-- Where a path ends: at a directory that it reaches through `.`, `..` or the root, or
at a name in a directory. -/
inductive Spot where
  | directory (p : Place)
  | named (parent : Place) (name : String) (trailingSlash : Bool)

def locate (t : FileTree) (path : FilePath) : Except FileFault Spot :=
  match path.segments.getLast? with
  | none => if path.absolute then .ok (.directory []) else .error .notFound
  | some last => do
    let parent ← t.walk (t.start path.absolute) path.segments.dropLast
    if last = "." then return .directory parent
    else if last = ".." then return .directory parent.dropLast
    else return .named parent last path.trailingSlash

def check (path : String) : Except FileFault Unit :=
  if path.toList.contains '\x00' then .error .nulByte
  else if maxPath < path.utf8ByteSize then .error .nameTooLong
  else .ok ()

def makeDirectory (t : FileTree) (path : FilePath) : Except FileFault FileTree := do
  match ← t.locate path with
  | .directory _ => .error .alreadyExists
  | .named parent name _ =>
    if maxName < name.utf8ByteSize then .error .nameTooLong
    else match t.get? (parent ++ [name]) with
      | some _ => .error .alreadyExists
      | none => .ok (t.put (parent ++ [name]) .directory)

def isDirectory (t : FileTree) (path : FilePath) : Bool :=
  match t.locate path with
  | .ok (.directory _) => true
  | .ok (.named parent name _) =>
    name.utf8ByteSize ≤ maxName && t.get? (parent ++ [name]) = some .directory
  | .error _ => false

def ensure (t : FileTree) (path : FilePath) : Except FileFault Unit × FileTree :=
  match t.makeDirectory path with
  | .ok t => (.ok (), t)
  | .error f => (if t.isDirectory path then .ok () else .error f, t)

/-- Makes the first path a directory, and the paths above it, which follow, where they
are missing. What was made stays, also when a later step fails. -/
def makeAll (t : FileTree) : List FilePath → Except FileFault Unit × FileTree
  | [] => (.ok (), t)
  | p :: above =>
    match t.makeDirectory p with
    | .error .notFound =>
      match t.makeAll above with
      | (.error f, t) => (.error f, t)
      | (.ok (), t) => t.ensure p
    | _ => t.ensure p

/-- Makes a directory and all directories above it; the empty path needs none. -/
def makeDirectories (t : FileTree) (path : String) : Except FileFault Unit × FileTree :=
  if path = "" then (.ok (), t)
  else match check path with
  | .error f => (.error f, t)
  | .ok () =>
    let p := FilePath.ofString path
    t.makeAll (p :: p.above)

def read (t : FileTree) (path : String) : Except FileFault Bytes := do
  check path
  match ← t.locate (.ofString path) with
  | .directory _ => .error .isADirectory
  | .named parent name slash =>
    if maxName < name.utf8ByteSize then .error .nameTooLong
    else match t.get? (parent ++ [name]) with
      | none => .error .notFound
      | some .directory => .error .isADirectory
      | some (.file content) => if slash then .error .notADirectory else .ok content

def writable (t : FileTree) (path : String) : Except FileFault Place := do
  check path
  match ← t.locate (.ofString path) with
  | .directory _ => .error .isADirectory
  | .named parent name slash =>
    if slash then .error .isADirectory
    else if maxName < name.utf8ByteSize then .error .nameTooLong
    else match t.get? (parent ++ [name]) with
      | some .directory => .error .isADirectory
      | _ => .ok (parent ++ [name])

def write (t : FileTree) (path : String) (content : Bytes) : Except FileFault FileTree :=
  (t.writable path).map fun p => t.put p (.file content)

def files (t : FileTree) : List (String × Bytes) :=
  t.nodes.filterMap fun (p, n) =>
    match n with
    | .directory => none
    | .file content =>
      if t.working.isPrefixOf p then
        some (String.intercalate "/" (p.drop t.working.length), content)
      else none

end FileTree
end GridWorker
