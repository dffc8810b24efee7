import TinyLang.Command.Invoke

/-!
# The command line

Calls the tool on the files of the current directory and on the files that its arguments name. The
input is read as a whole before the tool starts, and what the tool writes and changes is brought to
the machine when it has ended. Histories last as long as the tool runs.
-/

namespace TinyLang.CommandLine

/-- The bytes of a text. -/
def bytesOf (t : Text) : ByteArray := ⟨t.toArray⟩

/-- The place of an entry of the machine. -/
def placeOf (e : IO.FS.DirEntry) : Place := Path.parts (Path.clean e.path.toString)

/-- Puts an entry of the machine into a workspace, with everything below it. -/
partial def gather (w : Workspace) (e : IO.FS.DirEntry) : IO Workspace := do
  if ← e.path.isDir then
    let w := w.put (placeOf e) .directory
    if e.fileName == ".git" then return w
    (← e.path.readDir).foldlM gather w
  else if ← e.path.pathExists then
    return w.put (placeOf e) (.file (← IO.FS.readBinFile e.path).data.toList)
  else return w

/-- Reads what is left of the input. -/
partial def readInput (s : IO.FS.Stream) (before : ByteArray) : IO Text := do
  let chunk ← s.read 65536
  if chunk.isEmpty then return before.data.toList else readInput s (before ++ chunk)

/-- Brings an entry of a workspace to the machine, unless it is there already. -/
def restore (known : Workspace) (place : Place) (entry : Entry) : IO Unit := do
  if known.entry? place == some entry then return
  if let some path := (Text.join "/" place).toString? then
    let target := (← IO.currentDir) / ("/" ++ path)
    match entry with
    | .directory => IO.FS.createDirAll target
    | .file content => IO.FS.writeBinFile target (bytesOf content)

/-- Calls the tool. -/
def run (args : List String) : IO UInt32 := do
  let here ← IO.currentDir
  let known := Workspace.empty (Path.parts (here.toString : String))
  let w ← (← here.readDir).foldlM gather known
  let w ← (args.map (IO.FS.DirEntry.mk here)).foldlM gather w
  let input ← readInput (← IO.getStdin) .empty
  let o := Command.invoke Command.standardPrograms ⟨w, []⟩ (args.map Text.ofString) input
  o.site.workspace.entries.forM fun (place, entry) => restore w place entry
  (← IO.getStdout).write (bytesOf o.output)
  (← IO.getStderr).write (bytesOf o.errors)
  return o.code.toUInt32

end TinyLang.CommandLine

/-- The entry point of the tool. -/
def main (args : List String) : IO UInt32 := TinyLang.CommandLine.run args
