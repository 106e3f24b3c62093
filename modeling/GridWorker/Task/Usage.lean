/-! # Help pages

Every command has a page that says what it does, how it is called and what its options
mean; the columns of a page are aligned.
-/
namespace GridWorker

inductive Topic where
  | top
  | test
  | bench
  | ci
  | package
  | help
deriving DecidableEq

namespace Topic

def ofName? : String → Option Topic
  | "test" => some .test
  | "bench" => some .bench
  | "ci" => some .ci
  | "package" => some .package
  | "help" => some .help
  | _ => none

def about : Topic → String
  | .top => "Task runner for the mock compute worker workspace"
  | .test => "Run the unit tests of the worker crates"
  | .bench => "Run the synthetic computation benchmark"
  | .ci => "Formatting, clippy and tests"
  | .package => "Build the worker for Lambda and zip it as `bootstrap`"
  | .help => "Print this message or the help of the given subcommand(s)"

def usage : Topic → String
  | .top => "xtask <COMMAND>"
  | .test => "xtask test"
  | .bench => "xtask bench [OPTIONS]"
  | .ci => "xtask ci"
  | .package => "xtask package [OPTIONS]"
  | .help => "xtask help [COMMAND]..."

def helpRow : String × String := ("-h, --help", "Print help")

def tables : Topic → List (String × List (String × String))
  | .top =>
    [("Commands", [("test", about .test), ("bench", about .bench), ("ci", about .ci),
        ("package", about .package), ("help", about .help)]),
      ("Options", [helpRow])]
  | .test => [("Options", [helpRow])]
  | .bench =>
    [("Options",
      [("    --save-baseline <SAVE_BASELINE>",
          "Save the results under this Criterion baseline name"),
        ("    --baseline <BASELINE>", "Compare the results against a previously saved baseline"),
        helpRow])]
  | .ci => [("Options", [helpRow])]
  | .package =>
    [("Options",
      [("    --arch <ARCH>",
          "Lambda architecture to build for [default: x86_64] [possible values: x86_64, arm64]"),
        ("    --out-dir <OUT_DIR>",
          "Directory receiving the zip artifact [default: target/lambda]"),
        helpRow])]
  | .help => [("Arguments", [("[COMMAND]...", "Print help for the subcommand(s)")])]

def aligned (rows : List (String × String)) : String :=
  let width := (rows.map fun r => r.1.length).foldl max 0
  String.join (rows.map fun r =>
    "  " ++ r.1 ++ String.ofList (List.replicate (width - r.1.length) ' ') ++ "  " ++ r.2 ++ "\n")

def page (t : Topic) : String :=
  t.about ++ "\n\nUsage: " ++ t.usage ++ "\n" ++
    String.join (t.tables.map fun s => "\n" ++ s.1 ++ ":\n" ++ aligned s.2)

end Topic
end GridWorker
