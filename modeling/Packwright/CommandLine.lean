import Packwright.Shell.Piped

/-!
# The command line

A run of the program either explains itself, builds a project once, or opens the shell for a
project. The log begins once the configuration is read, because that decides how detailed it is.

## Main definitions

- `Options`, `Options.parse` — the arguments of a run
- `Exit` — the end of a run: its code, the files and what was said
- `CommandLine.start` — a run up to its end or to the dialogue with the shell
- `CommandLine.run` — a whole run whose input is not typed at a terminal
-/

namespace Packwright

/-- What is wrong with the arguments. -/
inductive UsageError where
  | unknownOption (arg : String)
  | unexpectedArgument (arg : String)
  deriving DecidableEq, Repr, Inhabited

/-- The wording of a usage error. -/
def UsageError.message : UsageError → String
  | .unknownOption arg => "unknown option: " ++ arg
  | .unexpectedArgument arg => "unexpected argument: " ++ arg

/-- The arguments of a run. -/
structure Options where
  config : Option String := none
  batch : Bool := false
  verbose : Bool := false
  help : Bool := false
  version : Bool := false
  deriving DecidableEq, Repr, Inhabited

namespace Options

/-- Adds one argument. -/
def add (o : Options) (arg : String) : Except UsageError Options :=
  if arg = "-h" || arg = "--help" then .ok { o with help := true }
  else if arg = "-V" || arg = "--version" then .ok { o with version := true }
  else if arg = "-b" || arg = "--batch" then .ok { o with batch := true }
  else if arg = "-v" || arg = "--verbose" then .ok { o with verbose := true }
  else if Text.startsWith "-" arg then .error (.unknownOption arg)
  else if o.config.isSome then .error (.unexpectedArgument arg)
  else .ok { o with config := some arg }

/-- Reads the arguments of a run. -/
def parse (args : List String) : Except UsageError Options := args.foldlM add {}

/-- The path of the configuration file. -/
def configPath (o : Options) : File.Path := ⟨o.config.getD Config.fileName⟩

end Options

namespace CommandLine

/-- The explanation of the arguments. -/
def helpText : String :=
  "\x1b[1mQuill\x1b[0m - Compile Quill scripts into data pack functions\n" ++
  "\n" ++
  "\x1b[1mUSAGE:\x1b[0m\n" ++
  "    quill [OPTIONS] [CONFIG]\n" ++
  "\n" ++
  "\x1b[1mARGUMENTS:\x1b[0m\n" ++
  "    [CONFIG]    Project configuration file (default: quill.json)\n" ++
  "\n" ++
  "\x1b[1mOPTIONS:\x1b[0m\n" ++
  "    -h, --help         Print help information\n" ++
  "    -V, --version      Print version information\n" ++
  "    -b, --batch        Compile once and exit (no REPL)\n" ++
  "    -v, --verbose      Log every file read and written\n" ++
  "\n" ++
  "\x1b[1mEXAMPLES:\x1b[0m\n" ++
  "    quill                        Start the shell for ./quill.json\n" ++
  "    quill -b                     Build the pack and exit\n" ++
  "    quill -b -v game/quill.json  Build another project with debug logging\n" ++
  "\n" ++
  "\x1b[1mREPL COMMANDS:\x1b[0m\n" ++
  "    compile              Compile the entry file and write the pack\n" ++
  "    config               Show the configuration\n" ++
  "    config reload        Re-read the configuration file\n" ++
  "    help                 List commands\n" ++
  "    exit                 Leave (or Ctrl+D)\n" ++
  "    <source>             Compile a snippet and show its commands\n"

/-- The version of the program. -/
def versionText : String := "quill 0.1.0\n"

end CommandLine

/-- The end of a run. -/
structure Exit where
  code : Nat := 0
  /-- Which records of the log are seen. -/
  filter : LogFilter := .off
  workspace : Workspace
  deriving DecidableEq, Repr, Inhabited

namespace Exit

/-- The end of a run that says one more thing. -/
def saying (code : Nat) (filter : LogFilter) (w : Workspace) (m : Message) : Exit :=
  ⟨code, filter, { w with messages := w.messages ++ [m] }⟩

/-- The end of a run that fails. -/
def ofFailure (filter : LogFilter) (w : Workspace) : Failure → Exit
  | .fault f => saying 1 filter w (.error f.render)
  | .crash => ⟨101, filter, w⟩
  | .exhausted => ⟨102, filter, w⟩

/-- The end of a run by what its last step comes to. -/
def ofOutcome {α : Type} (filter : LogFilter) : Except Failure α × Workspace → Exit
  | (.ok _, w) => ⟨0, filter, w⟩
  | (.error failure, w) => ofFailure filter w failure

/-- What the run wrote to the output. -/
def output (e : Exit) : String := Message.output e.workspace.messages

/-- What the run wrote to the error output. -/
def errorOutput (e : Exit) : String := Message.errorOutput e.filter e.workspace.messages

end Exit

namespace CommandLine

/-- A run up to its end or to the dialogue with the shell. -/
inductive Start where
  | done (e : Exit)
  | dialogue (filter : LogFilter) (d : Dialogue) (w : Workspace)
  deriving Repr, Inhabited

/-- Reads the configuration of a run and rejects one that no pack can be built with. -/
def readConfig (o : Options) : Work Config := do
  let config ← Config.load o.configPath
  Work.ofExcept config.validate
  return config

/-- Builds the project once, or opens the shell. -/
def startProject (o : Options) (config : Config) (files : File.Tree) : Start :=
  let filter := LogFilter.ofVerbose (o.verbose || config.verbose)
  if o.batch then .done (.ofOutcome filter (config.build.outcome { files }))
  else
    let shell : Shell := { configPath := o.configPath, config }
    .dialogue filter { shell } { files, messages := [Dialogue.banner shell] }

/-- A run up to its end or to the dialogue with the shell. -/
def start (args : List String) (files : File.Tree) : Start :=
  match Options.parse args with
  | .error e => .done (.saying 1 .off { files } (.error e.message))
  | .ok o =>
    if o.help then .done (.saying 0 .off { files } (.shown helpText))
    else if o.version then .done (.saying 0 .off { files } (.shown versionText))
    else
      match (readConfig o).outcome { files } with
      | (.error failure, _) => .done (.ofFailure .off { files } failure)
      | (.ok config, _) => startProject o config files

/-- A whole run whose input is not typed at a terminal. -/
def run (args : List String) (input : String) (files : File.Tree) : Exit :=
  match start args files with
  | .done e => e
  | .dialogue filter d w => .ofOutcome filter ((d.runScript (.ofText input)).outcome w)

end CommandLine

end Packwright
