import GridWorker.Archive.Plain
import GridWorker.FileTree
import GridWorker.Task.Command

/-! # Carrying out tasks

A task runs its build commands; packaging then reads the binary that was built, makes
the output directory and writes an archive whose only entry is that binary under the
name that the host starts. Files are touched only after the build has succeeded and
the binary has been read.
-/
namespace GridWorker

inductive TaskFault where
  | build (f : BuildFault)
  | read (path : String) (f : FileFault)
  | create (path : String) (f : FileFault)
  | write (path why : String)
deriving DecidableEq

def TaskFault.message : TaskFault → String
  | .build f => f.message
  | .read path f => "failed to read '" ++ path ++ "': " ++ f.message
  | .create path f => "failed to create '" ++ path ++ "': " ++ f.message
  | .write path why => "failed to write '" ++ path ++ "': " ++ why

namespace Package

def entryName : String := "bootstrap"

def bootstrap (z : ZipLibrary) (binary : Bytes) : z.Session Unit := do
  z.add ⟨entryName, ⟨.deflated, 0o755⟩, binary⟩
  z.finish

def binaryPath (a : Architecture) : String :=
  FilePath.join (FilePath.join (FilePath.join "target" a.triple) "release") Command.workerPackage

def archiveName (a : Architecture) : String := "mock_compute-" ++ a.name ++ ".zip"

def archivePath (a : Architecture) (outDir : String) : String :=
  FilePath.join outDir (archiveName a)

structure Unwritten where
  message : String
  tree : FileTree

/-- Opens a file, which empties it, and writes an archive of the binary. What a failed session
has written stays. -/
def writeArchive (t : FileTree) (binary : Bytes) (path : String)
    (z : ZipLibrary := .plain) : Except Unwritten FileTree :=
  let (r, bytes) := z.outcome (bootstrap z binary)
  match t.write path bytes, r with
  | .error f, _ => .error ⟨f.message, t⟩
  | .ok t, .ok () => .ok t
  | .ok t, .error why => .error ⟨why, t⟩

/-- Everything after the build: the path of the archive, and the tree left behind. -/
def assemble (z : ZipLibrary) (a : Architecture) (outDir : String) (t : FileTree) :
    Except TaskFault String × FileTree :=
  match t.read (binaryPath a) with
  | .error f => (.error (.read (binaryPath a) f), t)
  | .ok binary =>
    match t.makeDirectories outDir with
    | (.error f, t) => (.error (.create outDir f), t)
    | (.ok (), t) =>
      let path := archivePath a outDir
      match writeArchive t binary path z with
      | .error u => (.error (.write path u.message), u.tree)
      | .ok t => (.ok path, t)

end Package

/-- A task as far as it came: its build commands, the path of the archive if it made
one, and the tree left behind. -/
structure TaskRun where
  builds : BuildRun
  result : Except TaskFault (Option String)
  tree : FileTree

namespace TaskRun

def ofBuilds (launches : List Launch) (t : FileTree) (commands : List BuildCommand) : TaskRun :=
  let r := BuildRun.ofCommands launches commands
  { builds := r
    result := match r.result with
      | .ok () => .ok none
      | .error f => .error (.build f)
    tree := t }

def ofCommand (launches : List Launch) (t : FileTree) (c : Command)
    (z : ZipLibrary := .plain) : TaskRun :=
  let built := ofBuilds launches t c.builds
  match c, built.result with
  | .package a outDir, .ok _ =>
    let (r, t) := Package.assemble z a outDir t
    { built with result := r.map some, tree := t }
  | _, _ => built

end TaskRun
end GridWorker
