/-! # Build commands

The task runner starts the build tool with one list of arguments after another and
stops at the first command that does not exit with zero. Each command is announced
before it is started. A command with a NUL character in an argument, or without a
build tool to start, is announced but never reaches the tool.
-/
namespace GridWorker

structure BuildCommand where
  arguments : List String
deriving DecidableEq

inductive ExitStatus where
  | code (n : Nat)
  | signal (n : Nat) (coreDumped : Bool := false)
deriving DecidableEq

inductive Launch where
  | exited (s : ExitStatus)
  | unavailable
deriving DecidableEq

inductive BuildFault where
  | status (c : BuildCommand) (s : ExitStatus)
  | unavailable
  | nulByte
deriving DecidableEq

namespace BuildCommand

def text (c : BuildCommand) : String := "cargo " ++ String.intercalate " " c.arguments

def announcement (c : BuildCommand) : String := "+ " ++ c.text ++ "\n"

/-- Whether the arguments can be passed to a process. -/
def passable (c : BuildCommand) : Bool := c.arguments.all fun a => !a.toList.contains '\x00'

end BuildCommand

namespace ExitStatus

def signalNames : List String :=
  ["SIGHUP", "SIGINT", "SIGQUIT", "SIGILL", "SIGTRAP", "SIGABRT", "SIGBUS", "SIGFPE", "SIGKILL",
    "SIGUSR1", "SIGSEGV", "SIGUSR2", "SIGPIPE", "SIGALRM", "SIGTERM", "SIGSTKFLT", "SIGCHLD",
    "SIGCONT", "SIGSTOP", "SIGTSTP", "SIGTTIN", "SIGTTOU", "SIGURG", "SIGXCPU", "SIGXFSZ",
    "SIGVTALRM", "SIGPROF", "SIGWINCH", "SIGIO", "SIGPWR", "SIGSYS"]

def signalName? : Nat → Option String
  | 0 => none
  | n + 1 => signalNames[n]?

def message : ExitStatus → String
  | .code n => "exit status: " ++ n.repr
  | .signal n coreDumped =>
    let name := match signalName? n with
      | some name => " (" ++ name ++ ")"
      | none => ""
    "signal: " ++ n.repr ++ name ++ if coreDumped then " (core dumped)" else ""

end ExitStatus

def BuildFault.message : BuildFault → String
  | .status c s => "`" ++ c.text ++ "` exited with " ++ s.message
  | .unavailable => "failed to execute cargo: No such file or directory (os error 2)"
  | .nulByte => "failed to execute cargo: nul byte found in provided data"

/-- A sequence of commands as far as it came: the commands announced, those among them
that reached the build tool, and whether all succeeded. -/
structure BuildRun where
  announced : List BuildCommand
  started : List BuildCommand
  result : Except BuildFault Unit

namespace BuildRun

def attempt (c : BuildCommand) (l : Launch) : BuildRun :=
  if !c.passable then ⟨[c], [], .error .nulByte⟩
  else match l with
    | .unavailable => ⟨[c], [], .error .unavailable⟩
    | .exited s => ⟨[c], [c], if s = .code 0 then .ok () else .error (.status c s)⟩

/-- Commands in order; where no outcome is given, a command exits with zero. -/
def ofCommands : List Launch → List BuildCommand → BuildRun
  | _, [] => ⟨[], [], .ok ()⟩
  | launches, c :: rest =>
    let first := attempt c (launches.headD (.exited (.code 0)))
    match first.result with
    | .error _ => first
    | .ok () =>
      let later := ofCommands launches.tail rest
      ⟨first.announced ++ later.announced, first.started ++ later.started, later.result⟩

def printed (r : BuildRun) : String := String.join (r.announced.map BuildCommand.announcement)

end BuildRun
end GridWorker
