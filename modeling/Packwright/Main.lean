import Packwright.CommandLine

/-!
# The program

The outer layer of the program: it shows a run the files of the working directory and of the
project, hands on what is typed, prints what is said, and brings the changed files to disk.

## Main definitions

- `Disk.view` — the files of some directories as a tree
- `Disk.sync` — brings the changes of a tree to disk
- `main` — the program
-/

namespace Packwright

namespace Disk

/-- The content of a file by its bytes. -/
def content (bytes : ByteArray) : File.Content :=
  match String.fromUTF8? bytes with
  | some s => .text s
  | none => .binary bytes.toList

/-- Everything below a directory, put in front of what was found before. -/
partial def collect (p : File.Place) (found : List (File.Place × File.Node)) :
    IO (List (File.Place × File.Node)) := do
  let mut found := found
  for entry in ← (IO.FS.DirEntry.path ⟨p.toPath.text, "."⟩).readDir do
    let q := p.enter entry.fileName.toList
    if ← entry.path.isDir then
      found ← collect q ((q, .directory) :: found)
    else
      let bytes ← IO.FS.readBinFile entry.path
      found := (q, .file (content bytes)) :: found
  return found

/-- The files of the working directory and, if it lies elsewhere, of a project. -/
def view (project : File.Path) : IO File.Tree := do
  let nodes ← collect {} []
  let root := File.Place.ofPath project
  if root.anchor = .working then return ⟨nodes⟩
  let above := (List.range root.names.length).map fun n =>
    ((⟨root.anchor, root.names.take (n + 1)⟩ : File.Place), File.Node.directory)
  try return ⟨nodes ++ above ++ (← collect root [])⟩
  catch _ => return ⟨nodes⟩

/-- Brings the changes from one tree to another to disk. -/
def sync (before after : File.Tree) : IO Unit := do
  for (p, node) in before.nodes do
    match node with
    | .file _ => if (after.node? p).isNone then IO.FS.removeFile p.toPath.text
    | .directory => pure ()
  for (p, node) in after.nodes do
    if before.node? p = some node then continue
    match node with
    | .directory => IO.FS.createDirAll p.toPath.text
    | .file (.text s) => IO.FS.writeFile p.toPath.text s
    | .file (.binary bytes) => IO.FS.writeBinFile p.toPath.text ⟨bytes.toArray⟩

end Disk

/-- Prints what was said. -/
def deliver (filter : LogFilter) (messages : List Message) : IO Unit := do
  let stdout ← IO.getStdout
  let stderr ← IO.getStderr
  for m in messages do
    stdout.putStr m.toOutput
    stderr.putStr (m.toErrorOutput filter)
  stdout.flush

/-- The project directory that the arguments name. -/
def projectOf (args : List String) : File.Path :=
  match Options.parse args with
  | .ok o => Config.rootOf o.configPath
  | .error _ => ⟨"."⟩

/-- Goes on with a dialogue until it is over. -/
partial def converse (project : File.Path) (filter : LogFilter) (d : Dialogue)
    (held : List Char) : IO UInt32 := do
  let line ← (← IO.getStdin).getLine
  let next (event : LineEvent) : IO UInt32 := do
    let files ← Disk.view project
    let (result, w) := (d.step event).outcome { files }
    Disk.sync files w.files
    match result with
    | .error failure =>
      let e := Exit.ofFailure filter w failure
      deliver filter e.workspace.messages
      return e.code.toUInt32
    | .ok (d, more) =>
      deliver filter w.messages
      if more then converse project filter d []
      else
        deliver filter [Dialogue.farewell]
        return 0
  if line.isEmpty then next .ended
  else
    match pipeLine held line.toList with
    | .complete input => next (.line input)
    | .held held => converse project filter d held
    | .broken => return (Exit.ofFailure filter {} .crash).code.toUInt32

end Packwright

open Packwright in
/-- Runs the program. -/
def main (args : List String) : IO UInt32 := do
  let project := projectOf args
  let files ← Disk.view project
  match CommandLine.start args files with
  | .done e =>
    Disk.sync files e.workspace.files
    deliver e.filter e.workspace.messages
    return e.code.toUInt32
  | .dialogue filter d w =>
    deliver filter w.messages
    converse project filter d []
