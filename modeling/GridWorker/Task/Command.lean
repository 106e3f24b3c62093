import GridWorker.Task.Build

/-! # Tasks and their build commands

A task is to test, to measure, to check everything, or to package the worker for one
architecture. Each task is a fixed list of build commands; checking everything ends
with the commands of testing. A measurement is saved under a name or compared with a
saved one, and saving takes precedence.
-/
namespace GridWorker

inductive Architecture where
  | x86_64
  | arm64
deriving DecidableEq

namespace Architecture

def name : Architecture → String
  | .x86_64 => "x86_64"
  | .arm64 => "arm64"

def triple : Architecture → String
  | .x86_64 => "x86_64-unknown-linux-gnu"
  | .arm64 => "aarch64-unknown-linux-gnu"

def ofName? : String → Option Architecture
  | "x86_64" => some .x86_64
  | "arm64" => some .arm64
  | _ => none

end Architecture

inductive Command where
  | test
  | bench (saveBaseline baseline : Option String)
  | ci
  | package (architecture : Architecture) (outDir : String)
deriving DecidableEq

namespace Command

def corePackage : String := "mock_compute_core"

def workerPackage : String := "mock_compute_lambda"

def testBuilds : List BuildCommand :=
  [⟨["test", "-p", corePackage]⟩, ⟨["test", "-p", workerPackage]⟩]

def baselineArguments : Option String → Option String → List String
  | some name, _ => ["--", "--save-baseline", name]
  | none, some name => ["--", "--baseline", name]
  | none, none => []

def releaseBuild (a : Architecture) : BuildCommand :=
  ⟨["build", "--release", "-p", workerPackage, "--bin", workerPackage, "--target", a.triple]⟩

def builds : Command → List BuildCommand
  | .test => testBuilds
  | .bench saveBaseline baseline =>
    [⟨["bench", "-p", corePackage, "--bench", "computation"] ++
      baselineArguments saveBaseline baseline⟩]
  | .ci =>
    [⟨["fmt", "--all", "--", "--check"]⟩,
      ⟨["clippy", "--all-targets", "--", "-D", "warnings"]⟩] ++ testBuilds
  | .package a _ => [releaseBuild a]

end Command
end GridWorker
