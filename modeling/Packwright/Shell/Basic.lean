import Packwright.Project.Artifact

/-!
# The shell

The shell answers requests about one project: build it, show or read again its configuration, or
compile a snippet of source text and show what comes of it.

## Main definitions

- `Request`, `Request.parse` — what an input asks for
- `Shell` — the project that the shell works on
- `Shell.eval` — the answer to an input
-/

namespace Packwright

/-- What an input asks the shell for. -/
inductive Request where
  | build
  | showConfig
  | reloadConfig
  | help
  | leave
  | snippet (source : String)
  deriving DecidableEq, Repr, Inhabited

/-- What an input asks for; blanks at its ends do not matter. -/
def Request.parse (input : String) : Request :=
  match Text.trim input with
  | "compile" => .build
  | "config" => .showConfig
  | "config reload" => .reloadConfig
  | "help" => .help
  | "exit" => .leave
  | "quit" => .leave
  | source => .snippet source

/-- The project that the shell works on. -/
structure Shell where
  configPath : File.Path
  config : Config
  deriving DecidableEq, Repr, Inhabited

/-- The requests of the shell, explained. -/
def Shell.helpText : String :=
  "\x1b[1mCommands:\x1b[0m\n" ++
  "    compile          Compile the entry file and write the pack\n" ++
  "    config           Show the current configuration\n" ++
  "    config reload    Re-read the configuration file\n" ++
  "    help             Show this message\n" ++
  "    exit             Leave the shell\n" ++
  "\n" ++
  "Any other input is compiled as Quill source and the emitted commands are shown."

/-- A function under a heading with its name. -/
def PackFunction.listing (space : String) (f : PackFunction) : List String :=
  ("\x1b[1m# " ++ (f.path.inSpace space).render ++ "\x1b[0m") ::
    f.commands.map fun c => "  " ++ c.render

/-- The user's part of the load function, then every other function under a heading. -/
def Pack.listing (p : Pack) : String :=
  Text.joinWith "\n" (p.userLoad.map Command.render ++
    (p.allFunctions.filter (·.path ≠ loadPath)).flatMap (PackFunction.listing p.space))

namespace Shell

/-- The name under which snippets are compiled. -/
def snippetName : String := "<repl>"

/-- The answer to a request, which may change the configuration; none on leaving. -/
def answer (sh : Shell) : Request → Work (Option String × Shell)
  | .leave => return (none, sh)
  | .help => return (some helpText, sh)
  | .build => do
    let summary ← sh.config.build
    return (some (summary.render sh.config.outputPath), sh)
  | .showConfig => return (some sh.config.render, sh)
  | .reloadConfig => do
    let config ← Config.load sh.configPath
    Work.ofExcept config.validate
    return (some ("reloaded " ++ sh.configPath.text), { sh with config })
  | .snippet source => do
    let s ← Work.compile sh.config.settings (Session.compileText · snippetName source)
    return (some s.pack.listing, sh)

/-- The answer to an input. -/
def eval (sh : Shell) (input : String) : Work (Option String × Shell) :=
  sh.answer (Request.parse input)

end Shell

end Packwright
