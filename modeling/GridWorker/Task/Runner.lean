import GridWorker.Task.CommandLine
import GridWorker.Task.Package

/-! # The task runner

From a command line to the end of the process. A page that was asked for is printed
with exit code 0, a wrong command line ends with 2, a failed task with 1 and one last
line that gives the cause.
-/
namespace GridWorker

structure Finished where
  exit : Nat
  stdout : String
  stderr : String
  started : List BuildCommand
  tree : FileTree

namespace Finished

def ofUsage (t : FileTree) : UsageFault → Finished
  | .help topic => ⟨0, topic.page, "", [], t⟩
  | f => ⟨2, "", f.message, [], t⟩

def lastLine (c : Command) : Except TaskFault (Option String) → String
  | .error f => "xtask: " ++ f.message ++ "\n"
  | .ok path =>
    match c, path with
    | .package a _, some path =>
      "packaged " ++ path ++ " for the " ++ a.name ++ " Lambda architecture\n"
    | _, _ => ""

def ofTask (c : Command) (r : TaskRun) : Finished where
  exit := match r.result with
    | .ok _ => 0
    | .error _ => 1
  stdout := ""
  stderr := r.builds.printed ++ lastLine c r.result
  started := r.builds.started
  tree := r.tree

def run (launches : List Launch) (t : FileTree) (args : List String)
    (z : ZipLibrary := .plain) : Finished :=
  match Command.parse args with
  | .error f => ofUsage t f
  | .ok c => ofTask c (.ofCommand launches t c z)

end Finished
end GridWorker
