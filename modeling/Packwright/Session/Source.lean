import Packwright.Session.Block

/-!
# Source files

A source file is compiled at top level; its commands go to the load function. An import compiles
another file in its place, unless that file was begun before. Each step of a session compiles one
text or one file.

## Main definitions

- `Compile.topConstructs`, `Compile.source` — the top level of a file, and a file with its name
- `Compile.importWithin` — a file by its path, with a bound on nested imports
- `Session.compileText`, `Session.compileFile`, `Session.compileEntry` — the steps of a session
-/

namespace Packwright

/-- The path and the token of `import "path";`. -/
def importTarget (keyword : Token) (rest : List Token) : Except Fault Token :=
  match rest with
  | [target] => if target.isString then .ok target else .error (target.fault .importNotString)
  | _ => .error (keyword.fault .importShape)

/-- The first token and the others of an import. -/
def Construct.import? : Construct → Option (Token × List Token)
  | .single s =>
    match s.kind, s.tokens with
    | .importFile, first :: rest => some (first, rest)
    | _, _ => none
  | _ => none

namespace Compile

/-- How a file is imported, given its path and where the import stands. -/
abbrev Importer := File.Path → Option Position → Compile Unit

/-- Compiles the constructs of the top level. The commands so far are in `out`; an import puts them
into the load function first, so that they keep their place. -/
def topConstructs (inner : Block) (importer : Importer) (out : List Command) :
    List Construct → Compile (List Command)
  | [] => return out
  | c :: rest =>
    match c.import? with
    | some (keyword, tokens) => do
      let target ← ofExcept (importTarget keyword tokens)
      modifyPack (·.extendLoad out)
      importer ((← get).settings.importPath target.value) (some target.position)
      topConstructs inner importer [] rest
    | none => do
      let commands ← construct inner .top c
      topConstructs inner importer (out ++ commands) rest

/-- The deepest nesting of bodies that a text can have. -/
def maxNesting (text : String) : Nat := text.toList.length + 1

/-- Compiles the text of a file. -/
def topLevel (importer : Importer) (text : String) : Compile Unit := do
  let statements ← tokenize .required Position.start text
  let out ← topConstructs (block (maxNesting text)) importer [] (constructs statements)
  modifyPack (·.extendLoad out)

/-- Names the file in a failure. -/
def inFile (name text : String) : Failure → Failure
  | .fault f => .fault (f.inFile name text)
  | failure => failure

/-- Compiles a file and names it in the warnings and the fault that come from it. -/
def source (importer : Importer) (name text : String) : Compile Unit := ExceptT.mk do
  modify fun s => { s with log := s.log ++ [⟨.debug, "compiling " ++ name⟩] }
  let before := (← get).warnings.length
  let result ← (topLevel importer text).run
  modify fun s => { s with
    warnings := s.warnings.take before ++ (s.warnings.drop before).map (·.inFile name text) }
  return result.mapError (inFile name text)

/-- Compiles a file by its path, given how to compile a text. A file that was begun before is left
out. -/
def importWith (files : File.Tree) (compile : String → String → Compile Unit) : Importer :=
  fun path at_ => do
    match files.read path with
    | .error problem => fail ⟨.unreadable path.text problem, at_.map Position.location⟩
    | .ok (place, text) =>
      let s ← get
      if s.imported.contains place then debug ("'" ++ path.text ++ "' already compiled, skipping")
      else
        set { s with imported := s.imported ++ [place] }
        compile (s.settings.displayName path) text

/-- Compiles a file by its path, with at most `depth` files inside one another. -/
def importWithin (files : File.Tree) : Nat → Importer
  | 0 => importWith files fun _ _ => throw .exhausted
  | depth + 1 => importWith files (source (importWithin files depth))

/-- Compiles a file by its path; files can be inside one another at most as often as there are
files. -/
def importFile (files : File.Tree) : Importer := importWithin files (files.nodes.length + 1)

/-- Writes the new warnings to the log. -/
def flushWarnings (s : Session) : Session :=
  { s with
    log := s.log ++ (s.warnings.drop s.logged).map fun w => ⟨.warn, w.render⟩
    logged := s.warnings.length }

/-- Runs a step of a session: the namespace is checked first, and the warnings are logged at the
end. -/
def step (m : Compile Unit) : Compile Unit := do
  ofExcept (validateSpace (← get).settings.space)
  ExceptT.mk do
    let result ← m.run
    modify flushWarnings
    return result

end Compile

namespace Session

/-- Compiles a text as if it were read from a file. -/
def compileText (files : File.Tree) (name text : String) : Compile Unit :=
  Compile.step (Compile.source (Compile.importFile files) name text)

/-- Compiles a file. -/
def compileFile (files : File.Tree) (path : File.Path) : Compile Unit :=
  Compile.step (Compile.importFile files path none)

/-- Compiles the entry file. -/
def compileEntry (files : File.Tree) : Compile Unit := do
  compileFile files (← get).settings.entryPath

end Session

end Packwright
