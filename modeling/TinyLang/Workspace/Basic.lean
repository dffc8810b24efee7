import TinyLang.Path

/-!
# Workspaces

The files and directories that commands work on, with a directory that relative paths start at. An
entry is known by its *place*, the names from the root down to it. Paths are followed name by name,
so that going through something that is missing or no directory is an error even if the path leads
back out of it.
-/

namespace TinyLang

/-- The names on the way from the root to an entry. -/
abbrev Place := List Text

/-- What stands at a place. -/
inductive Entry where
  | directory
  | file (content : Text)
deriving DecidableEq, Repr

/-- Why a path cannot be used. -/
inductive FileFault where
  | notFound
  | notDirectory
  | isDirectory
  | alreadyExists
  | nameTooLong
  | badPath
deriving DecidableEq, Repr

/-- What went wrong with a path. -/
structure FileError where
  /-- What was tried. -/
  action : Text
  path : Text
  fault : FileFault
deriving DecidableEq, Repr

namespace FileFault

/-- The wording of a fault. -/
def message : FileFault → Text
  | .notFound => "no such file or directory"
  | .notDirectory => "not a directory"
  | .isDirectory => "is a directory"
  | .alreadyExists => "file exists"
  | .nameTooLong => "file name too long"
  | .badPath => "invalid argument"

end FileFault

namespace FileError

/-- The wording of an error. -/
def message (e : FileError) : Text := e.action ++ " " ++ e.path ++ ": " ++ e.fault.message

end FileError

/-- Files and directories, and where one stands among them. -/
structure Workspace where
  entries : List (Place × Entry)
  /-- The directory that relative paths start at. -/
  current : Place
deriving Repr

namespace Workspace

/-- A workspace with one empty directory, its current one. -/
def empty (current : Place) : Workspace :=
  ⟨(List.range current.length).map fun n => (current.take (n + 1), .directory), current⟩

/-- The path of the current directory. -/
def currentPath (w : Workspace) : Text := "/" ++ Text.join "/" w.current

/-- What stands at a place. The root is always a directory. -/
def entry? (w : Workspace) (p : Place) : Option Entry :=
  if p.isEmpty then some .directory else (w.entries.find? fun e => e.1 == p).map Prod.snd

/-- Puts an entry at a place, instead of any other. -/
def put (w : Workspace) (p : Place) (e : Entry) : Workspace :=
  { w with entries := w.entries.filter (fun old => old.1 != p) ++ [(p, e)] }

/-- The entries directly in a directory. -/
def children (w : Workspace) (p : Place) : List (Place × Entry) :=
  w.entries.filter fun e => e.1.length = p.length + 1 && p.isPrefixOf e.1

/-- The files below a directory, each with the names from the directory down to it. -/
def filesBelow (w : Workspace) (p : Place) : List (Place × Text) :=
  w.entries.filterMap fun e =>
    match e.2 with
    | .file content => if p.isPrefixOf e.1 then some (e.1.drop p.length, content) else none
    | .directory => none

/-! ## Following paths -/

/-- The longest name of an entry, in bytes. -/
def longestName : Nat := 255

/-- The length that a path must stay below. -/
def pathLimit : Nat := 4096

/-- Follows names from a place. -/
def walk (w : Workspace) : Place → List Text → Except FileFault Place
  | p, [] => .ok p
  | p, name :: rest =>
    match w.entry? p with
    | some .directory =>
      if name = "." then walk w p rest
      else if name = ".." then walk w p.dropLast rest
      else if longestName < name.length then .error .nameTooLong
      else if (w.entry? (p ++ [name])).isSome then walk w (p ++ [name]) rest
      else .error .notFound
    | some (.file _) => .error .notDirectory
    | none => .error .notFound

/-- The place that a path starts at. -/
def origin (w : Workspace) (path : Text) : Place :=
  if Path.isAbsolute path then [] else w.current

/-- The place that a path leads to, and what stands there. -/
def locate (w : Workspace) (path : Text) : Except FileFault (Place × Entry) :=
  if path.contains 0 then .error .badPath
  else if path.isEmpty then .error .notFound
  else if pathLimit ≤ path.length then .error .nameTooLong
  else
    match w.walk (w.origin path) (Path.parts path) with
    | .error fault => .error fault
    | .ok p =>
      match w.entry? p with
      | none => .error .notFound
      | some .directory => .ok (p, .directory)
      | some (.file content) =>
        if Path.endsInSlash path then .error .notDirectory else .ok (p, .file content)

/-- The place for a new entry at a path that leads to none: a new name in a directory. -/
def freePlace (w : Workspace) (path : Text) : Except FileFault Place := do
  let names := Path.parts path
  let p ← w.walk (w.origin path) names.dropLast
  match names.getLast? with
  | some name => return p ++ [name]
  | none => throw .notFound

/-! ## Operations -/

/-- Whether a path leads to an entry. -/
def stat (w : Workspace) (path : Text) : Except FileError Entry :=
  match w.locate path with
  | .ok (_, e) => .ok e
  | .error fault => .error ⟨"stat", path, fault⟩

/-- The content of a file. A directory can be opened and not be read. -/
def read (w : Workspace) (path : Text) : Except FileError Text :=
  match w.locate path with
  | .ok (_, .file content) => .ok content
  | .ok (_, .directory) => .error ⟨"read", path, .isDirectory⟩
  | .error fault => .error ⟨"open", path, fault⟩

/-- Writes a file, which is made if it does not exist. -/
def write (w : Workspace) (path content : Text) : Except FileError Workspace :=
  let failed := fun fault => Except.error ⟨"open", path, fault⟩
  match w.locate path with
  | .ok (p, .file _) => .ok (w.put p (.file content))
  | .ok (_, .directory) => failed .isDirectory
  | .error .notFound =>
    match w.freePlace path with
    | .ok p => if Path.endsInSlash path then failed .isDirectory else .ok (w.put p (.file content))
    | .error fault => failed fault
  | .error fault => failed fault

/-- Makes a directory in one that exists. -/
def makeDirectory (w : Workspace) (path : Text) : Except FileError Workspace :=
  let failed := fun fault => Except.error ⟨"mkdir", path, fault⟩
  match w.locate path with
  | .ok _ => failed .alreadyExists
  | .error .notFound =>
    match w.freePlace path with
    | .ok p => .ok (w.put p .directory)
    | .error fault => failed fault
  | .error fault => failed fault

/-- The path above a path, without the slashes before its last part. -/
def parentPath (path : Text) : Text :=
  let body := path.reverse.dropWhile (· == Path.slash)
  ((body.dropWhile (· != Path.slash)).drop 1).reverse

/-- Makes a directory and all those above it that are missing. -/
def makeDirectories : (fuel : Nat) → Workspace → Text → Except FileError Workspace
  | 0, w, _ => .ok w
  | fuel + 1, w, path =>
    match w.locate path with
    | .ok (_, .directory) => .ok w
    | .ok (_, .file _) => .error ⟨"mkdir", path, .notDirectory⟩
    | .error _ => do
      let above := parentPath path
      let w ← if above.isEmpty then .ok w else makeDirectories fuel w above
      match w.makeDirectory path, w.locate path with
      | .ok w, _ => .ok w
      | .error _, .ok (_, .directory) => .ok w
      | .error e, _ => .error e

/-- Makes a directory with all those above it. -/
def ensureDirectory (w : Workspace) (path : Text) : Except FileError Workspace :=
  makeDirectories (path.length + 1) w path

end Workspace

end TinyLang
