import AwkToPython.CommandLine.Host
import AwkToPython.CommandLine.Request
import AwkToPython.Program

/-!
# Whole runs

A run reads the command line, compiles the program, and writes it to a file or
hands it to the interpreter. The first error ends it.
-/
namespace AwkToPython.CommandLine

def name : String := "awkpy"

def usage : String := Text.join "\n" [
  "Usage: awkpy [OPTIONS] 'program' [file ...]",
  "       awkpy [OPTIONS] -f progfile [file ...]",
  "",
  "Translates an AWK program to Python 3 and runs it, or writes it out with -o.",
  "",
  "Options:",
  "  -e src         Add program text",
  "  -f progfile    Add a program source file",
  "  -i incfile     Include a source file once, however often it is named",
  "  -v var=val     Preset a variable (ns::var=val for a namespace)",
  "  -F fs          Set the field separator to fs",
  "  -o file        Write the generated Python to file instead of running it",
  "  -d             Dump the generated Python to stderr",
  "  --             Pass every remaining argument to the program",
  "  -Wr            Pass this and every remaining argument to the program",
  "  --version      Print version information",
  "  --help         Print this help message",
  "",
  "Environment:",
  "  AWKPY_PYTHON       Python interpreter (default python3)",
  "  AWKPY_RUNTIME_DIR  Directory holding awkpy_runtime.py",
  "  AWKPATH            Search path for -f, -i and @include",
  "",
  "Examples:",
  "  awkpy '\x7b print $1 \x7d' file.txt",
  "  awkpy -F: '\x7b print $1 \x7d' /etc/passwd",
  "  awkpy -o hello.py 'BEGIN \x7b print \"Hello\" \x7d'",
  "",
  ""]

structure Result extends Outcome where
  tree : FileTree
deriving DecidableEq, Repr

def scriptName : String := "awkpy_program.py"

/-- The compilation that a request asks for. Presets come first, so that the
sources see their variables as scalars. -/
def Request.compile (r : Request) : Compile String := do
  r.presets.forM Compile.preset
  r.sources.forM Compile.addSource
  liftExcept (← get).finish

/-- The options of a compilation over the files of `tree`. -/
def Settings.options (settings : Settings) (tree : FileTree) : Options :=
  { library := { tree, searchPath := settings.searchPath } }

def Request.session (r : Request) (settings : Settings) (tree : FileTree) : Session :=
  { options := { settings.options tree with debug := r.debug } }

/-- An error ends a run with the code 2, after what was reported before it. -/
def failure (tree : FileTree) (reported : String) (e : Error) : Result :=
  { tree, code := 2, stderr := reported ++ s!"{name}: " ++ e.message ++ "\n" }

def warningLine (d : Diagnostic) : String := s!"{name}: warning: " ++ d.text ++ "\n"

def Request.report (r : Request) (s : Session) (program : String) : String :=
  Text.join "" (s.diagnostics.map warningLine) ++ if r.debug then program else ""

def execute (host : Host) (invocation : Invocation) (program : String)
    (arguments : List String) : Except Error Outcome :=
  match host.command? invocation.command with
  | some command => .ok (command host.tree program arguments)
  | none => .error (.host .missing)

def Request.deliver (r : Request) (host : Host) (settings : Settings)
    (environment : Environment) (program : String) : Except Error Result :=
  match r.output with
  | some path =>
    match host.tree.write path program with
    | .ok tree => .ok { tree }
    | .error fault => .error (.host fault)
  | none => do
    let invocation ← settings.invocation environment scriptName r.arguments
    let outcome ← execute host invocation program r.arguments
    return { outcome with tree := host.tree }

def Request.run (r : Request) (host : Host) (environment : Environment) : Result :=
  let settings := Settings.ofEnvironment environment
  match r.compile.run (r.session settings host.tree) with
  | .error e _ => failure host.tree "" e
  | .ok program s =>
    let reported := r.report s program
    match r.deliver host settings environment program with
    | .error e => failure host.tree reported e
    | .ok result => { result with stderr := reported ++ result.stderr }

def run (host : Host) (environment : Environment) (arguments : List String) : Result :=
  match Request.ofArguments arguments with
  | .error e => failure host.tree "" e
  | .ok r =>
    match r.mode with
    | .help => { tree := host.tree, stdout := usage }
    | .version => { tree := host.tree, stdout := s!"{name} {Program.version}\n" }
    | .run => r.run host environment

end AwkToPython.CommandLine
