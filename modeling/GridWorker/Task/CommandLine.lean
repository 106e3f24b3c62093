import GridWorker.Task.Command
import GridWorker.Task.Usage

/-! # Command lines

A command line is a command name and its options. An option takes a value, either
attached with `=` or as the next argument, which then must not look like an option. A
value that stands on its own is checked when the next option is met or the line ends,
an attached one at once; a repeated option is refused before its value is checked.
After `--` nothing is an option any more, and no command takes anything else.
-/
namespace GridWorker

inductive UsageFault where
  | help (t : Topic)
  | noCommand
  | unknownCommand
  | unknownArgument
  | invalidValue
  | conflict
  | unneededValue
deriving DecidableEq

def UsageFault.message : UsageFault → String
  | .help t => t.page
  | .noCommand => Topic.top.page
  | .unknownCommand => "error: unrecognized subcommand\n"
  | .unknownArgument => "error: unexpected argument\n"
  | .invalidValue => "error: invalid or missing value of an option\n"
  | .conflict => "error: arguments that cannot be used together\n"
  | .unneededValue => "error: unexpected value of an option\n"

inductive Argv where
  | separator
  | long (name : List Char) (value : Option (List Char))
  | short (letter : Char)
  | plain
deriving DecidableEq

namespace Argv

def splitValue : List Char → List Char × Option (List Char)
  | [] => ([], none)
  | c :: cs =>
    if c = '=' then ([], some cs)
    else
      let r := splitValue cs
      (c :: r.1, r.2)

def ofString (s : String) : Argv :=
  match s.toList with
  | ['-', '-'] => .separator
  | '-' :: '-' :: cs =>
    let r := splitValue cs
    .long r.1 r.2
  | '-' :: c :: _ => .short c
  | _ => .plain

end Argv

structure OptionRule where
  name : String
  accepts : String → Bool

/-- The options read so far: those with a checked value, the one met last with its
value if that has been read but not checked, and whether `--` has been passed. -/
structure Options where
  settled : List (String × String)
  pending : Option (String × Option String)
  separated : Bool

namespace Options

def start : Options := ⟨[], none, false⟩

def settle (rules : List OptionRule) (o : Options) (name value : String) :
    Except UsageFault Options :=
  if (o.settled.lookup name).isSome then .error .conflict
  else match rules.find? (·.name = name) with
    | none => .error .unknownArgument
    | some rule =>
      if rule.accepts value then .ok { o with settled := o.settled ++ [(name, value)] }
      else .error .invalidValue

def resolve (rules : List OptionRule) (o : Options) : Except UsageFault Options :=
  match o.pending with
  | none => .ok o
  | some (_, none) => .error .invalidValue
  | some (name, some value) => { o with pending := none }.settle rules name value

/-- Prints a page, unless the option met last is wrong. -/
def help (rules : List OptionRule) (o : Options) (t : Topic) : Except UsageFault Options := do
  let _ ← o.resolve rules
  .error (.help t)

def step (rules : List OptionRule) (t : Topic) (o : Options) (arg : String) :
    Except UsageFault Options :=
  if o.separated then .error .unknownArgument
  else match Argv.ofString arg with
    | .separator => .ok { o with separated := true }
    | .short letter => if letter = 'h' then o.help rules t else .error .unknownArgument
    | .plain =>
      match o.pending with
      | some (name, none) => .ok { o with pending := some (name, some arg) }
      | _ => .error .unknownArgument
    | .long name value =>
      let name := String.ofList name
      if name = "help" then
        if value.isSome then .error .unneededValue else o.help rules t
      else if rules.any (·.name = name) then do
        let o ← o.resolve rules
        match value with
        | some value => o.settle rules name (String.ofList value)
        | none => .ok { o with pending := some (name, none) }
      else .error .unknownArgument

/-- The values of the options of a command, in the order in which they were settled. -/
def read (rules : List OptionRule) (t : Topic) (args : List String) :
    Except UsageFault (List (String × String)) := do
  let o ← args.foldlM (step rules t) start
  let o ← o.resolve rules
  return o.settled

end Options

namespace Command

def saveBaselineRule : OptionRule := ⟨"save-baseline", fun _ => true⟩

def baselineRule : OptionRule := ⟨"baseline", fun _ => true⟩

def archRule : OptionRule := ⟨"arch", fun s => (Architecture.ofName? s).isSome⟩

def outDirRule : OptionRule := ⟨"out-dir", fun s => s ≠ ""⟩

def benchRules : List OptionRule := [saveBaselineRule, baselineRule]

def packageRules : List OptionRule := [archRule, outDirRule]

def defaultArchitecture : Architecture := .x86_64

def defaultOutDir : String := "target/lambda"

/-- The arguments of `bench`; at most one of the two baselines may be given. -/
def parseBench (args : List String) : Except UsageFault Command := do
  let values ← Options.read benchRules .bench args
  match values.lookup saveBaselineRule.name, values.lookup baselineRule.name with
  | some _, some _ => .error .conflict
  | saveBaseline, baseline => return .bench saveBaseline baseline

def parsePackage (args : List String) : Except UsageFault Command := do
  let values ← Options.read packageRules .package args
  let architecture := (values.lookup archRule.name).bind Architecture.ofName?
  return .package (architecture.getD defaultArchitecture)
    ((values.lookup outDirRule.name).getD defaultOutDir)

/-- The page that `help` is asked for: the page of one command, or the top page. -/
def helpTopic : List String → UsageFault
  | [] => .help .top
  | [name] =>
    match Topic.ofName? name with
    | some t => .help t
    | none => .unknownCommand
  | _ => .unknownCommand

def parseNamed (name : String) (args : List String) : Except UsageFault Command :=
  match Topic.ofName? name with
  | some .test => do
    let _ ← Options.read [] .test args
    return .test
  | some .bench => parseBench args
  | some .ci => do
    let _ ← Options.read [] .ci args
    return .ci
  | some .package => parsePackage args
  | some .help => .error (helpTopic args)
  | _ => .error .unknownCommand

def parse : List String → Except UsageFault Command
  | [] => .error .noCommand
  | arg :: rest =>
    match Argv.ofString arg with
    | .plain => parseNamed arg rest
    | .short letter => .error (if letter = 'h' then .help .top else .unknownArgument)
    | .long name value =>
      .error (if String.ofList name ≠ "help" then .unknownArgument
        else if value.isSome then .unneededValue else .help .top)
    | .separator =>
      .error (match rest with
        | [] => .noCommand
        | name :: _ => if (Topic.ofName? name).isSome then .unknownArgument else .unknownCommand)

end Command
end GridWorker
