import GridWorker.Task.Runner
import GridWorker.Text.Blank
import GridWorker.Text.Numeral

/-! # The program

The task runner as a program. It does not start the build tool itself: whoever calls
it carries out the build commands and writes to standard input how each of them ended,
one line for each, as an exit code or as the number of a signal after a minus sign.
The part of the disk that a task can reach is read into a file tree before the task
runs, and what the task adds to the tree is written back.
-/
namespace GridWorker.Program

/-- What a line says of a build command: an empty or missing line means that it exited
with zero, and a line that is no integer that the build tool could not be started. -/
def launch (line : String) : Launch :=
  match Blank.trim line.toList with
  | [] => .exited (.code 0)
  | word =>
    match Numeral.integer? word with
    | none => .unavailable
    | some n => .exited (if n < 0 then .signal n.natAbs else .code n.toNat)

def tasks (args : List String) : List Command :=
  match Command.parse args with
  | .error _ => []
  | .ok c => [c]

def reach : Command → List String
  | .package a outDir => [Package.binaryPath a, Package.archivePath a outDir]
  | _ => []

def placesTo (working : Place) (path : String) : List Place :=
  let p := FilePath.ofString path
  (List.range (p.segments.length + 1)).map fun n =>
    (⟨[], working⟩ : FileTree).place { p with segments := p.segments.take n }

def path (p : Place) : String := "/" ++ String.intercalate "/" p

/-- Reads lines up to the first that tells of a failure, at most one for each command. -/
def readLaunches (input : IO.FS.Stream) : List BuildCommand → IO (List Launch)
  | [] => return []
  | _ :: rest => do
    let l := launch (← input.getLine)
    if l = .exited (.code 0) then return l :: (← readLaunches input rest)
    return [l]

def readNode (p : Place) : IO (Option Node) := do
  match ← (IO.FS.realPath (path p)).toBaseIO with
  | .error _ => return none
  | .ok found =>
    if ← found.isDir then return some .directory
    return some (.file (← IO.FS.readBinFile found).toList)

def readTree (working : Place) (paths : List String) : IO FileTree :=
  (paths.flatMap (placesTo working)).foldlM
    (fun t p => do
      match ← readNode p with
      | some n => return t.put p n
      | none => return t)
    ⟨[], working⟩

/-- Writes the nodes that are not in the earlier tree, a directory before its files. -/
def writeTree (earlier t : FileTree) : IO Unit :=
  (t.nodes.filter fun n => earlier.get? n.1 ≠ some n.2).reverse.forM fun n =>
    match n.2 with
    | .directory => IO.FS.createDirAll (path n.1)
    | .file content => IO.FS.writeBinFile (path n.1) ⟨content.toArray⟩

def run (args : List String) : IO Finished := do
  let launches ← readLaunches (← IO.getStdin) ((tasks args).flatMap Command.builds)
  let working := (FilePath.ofString (← IO.currentDir).toString).segments
  let t ← readTree working ((tasks args).flatMap reach)
  let r := Finished.run launches t args
  writeTree t r.tree
  return r

end GridWorker.Program

def main (args : List String) : IO UInt32 := do
  let r ← GridWorker.Program.run args
  IO.print r.stdout
  IO.eprint r.stderr
  return UInt32.ofNat r.exit
