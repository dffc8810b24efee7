import TinyLang.Text.Lowercase
import TinyLang.Workspace.Ignore

/-!
# Histories

A directory may keep a history of its files: some are *staged*, and a commit records what is staged.
A file of the directory that is not staged, or is staged with other content, makes the history
unclean unless it is ignored, and so does anything staged that the last commit does not have.
-/

namespace TinyLang

/-- A recorded state of staged files. -/
structure Commit where
  author : Text
  email : Text
  message : Text
  /-- The files by their paths from the directory. -/
  files : Table Text
deriving DecidableEq, Repr

/-- The history of a directory. -/
structure History where
  staged : Table Text := []
  /-- The commits, newest first. -/
  commits : List Commit := []
deriving DecidableEq, Repr

namespace History

/-- The files of the last commit. -/
def last (h : History) : Table Text := (h.commits.head?.map Commit.files).getD []

/-- The paths that a staged name leads through, part by part, in their shortest form. -/
def steps (name : Text) : List Text :=
  ((name.pieces Path.slash).foldl (fun (paths : List Text) part =>
    Path.join (paths.headD []) part :: paths) []).reverse

/-- Whether the steps of a name make a directory of a path. -/
def makesDirectory (path name : Text) : Bool := name != path && (steps name).contains path

/-- The staged files that are found by following their names. A name in a longer form than needed only
leads to directories, which hide files of the same path behind them. -/
def tracked (h : History) : Table Text :=
  h.staged.filter fun (path, _) => (steps path).getLast? = some path &&
    !h.staged.any fun (name, _) => name.before path && makesDirectory path name

/-- Whether a path is ignored, whose staged content and content in the directory differ. A path that
has both is looked at twice over. -/
def overlooks (rules : List IgnoreRule) (path : Text) (both : Bool) : Bool :=
  let names := path.pieces Path.slash
  ignores rules false (if both then names ++ names else names)

/-- The paths whose staged content and content in the directory differ and are not ignored. -/
def changes (h : History) (files : Table Text) (rules : List IgnoreRule) : List Text :=
  let names := (Table.ofEntries (h.tracked ++ files)).map Prod.fst
  names.filter fun path =>
    let staged := h.tracked.find? path
    let present := files.find? path
    staged != present && !overlooks rules path (staged.isSome && present.isSome)

/-- Whether staged files, the last commit and the directory's files agree. -/
def isClean (h : History) (files : Table Text) (rules : List IgnoreRule) : Bool :=
  h.tracked == h.last && (h.changes files rules).isEmpty

/-- Stages one file. If what is staged of it waits for a commit, a change that is ignored does not
count. -/
def stage (h : History) (path content : Text) (rules : List IgnoreRule) : History :=
  let waits := h.tracked.find? path != h.last.find? path
  if waits && overlooks rules path (h.tracked.has path) then h
  else { h with staged := h.staged.insert path content }

/-- Stages the changes below a path. -/
def stageBelow (h : History) (path : Text) (files : Table Text) (rules : List IgnoreRule) : History :=
  let below := fun (name : Text) => path = "." || name.startsWith (path ++ "/")
  ((h.changes files rules).filter below).foldl (fun h name =>
    match files.find? name with
    | some content => { h with staged := h.staged.insert name content }
    | none => { h with staged := h.staged.filter fun e => e.1 != name }) h

/-- The address that is made up for an author. -/
def emailOf (author : Text) : Text :=
  author.lowercase.map (fun b => if b = 32 then Text.byte '.' else b) ++ "@localhost"

/-- The text before the last occurrence of a byte, and the text behind it. -/
def cutLast? (sep : UInt8) (t : Text) : Option (Text × Text) :=
  (Text.cut? sep t.reverse).map fun (after, before) => (before.reverse, after.reverse)

/-- A text without spaces at its ends. -/
def trimSpaces (t : Text) : Text :=
  ((t.dropWhile (· = 32)).reverse.dropWhile (· = 32)).reverse

/-- The lines that tell who made a commit, in two roles. -/
def header (author : Text) : Text :=
  let role := fun (name : Text) => name ++ " " ++ author ++ " <" ++ emailOf author ++ "> 0 +0000\n"
  role "author" ++ role "committer"

/-- The author and address in a line, which the last brackets tell apart. -/
def signature? (line : Text) : Option (Text × Text) := do
  let (name, rest) ← cutLast? (Text.byte '<') line
  let (email, _) ← cutLast? (Text.byte '>') rest
  return (trimSpaces name, email)

/-- The author and address of a commit, as they are read from its lines: in the last line that starts
with the word for the role and has them. An author that has lines may have none. -/
def signature (author : Text) : Text × Text :=
  let lines := ((header author).pieces (Text.byte '\n')).map Text.trim
  (lines.takeWhile fun l => !l.isEmpty).foldl (fun found line =>
    match Text.cut? 32 line with
    | some (word, rest) => if word = "author" then (signature? rest).getD found else found
    | none => found) ([], [])

/-- Records what is staged. -/
def commit (h : History) (author message : Text) : History :=
  let (name, email) := signature author
  { h with commits := ⟨name, email, message, h.tracked⟩ :: h.commits }

end History

/-- A workspace, with the histories of directories in it. -/
structure Site where
  workspace : Workspace
  histories : List (Place × History)
deriving Repr

namespace Site

/-- The history of a directory. -/
def history? (s : Site) (p : Place) : Option History :=
  (s.histories.find? fun e => e.1 == p).map Prod.snd

/-- Sets the history of a directory. -/
def setHistory (s : Site) (p : Place) (h : History) : Site :=
  { s with histories := s.histories.filter (fun e => e.1 != p) ++ [(p, h)] }

/-- The files of a directory that its history looks at, by their paths from it. -/
def filesOf (s : Site) (p : Place) : Table Text :=
  Table.ofEntries <| (s.workspace.filesBelow p).filterMap fun (names, content) =>
    if names.contains Workspace.historyName then none else some (Text.join "/" names, content)

/-- Why a history cannot be kept. -/
inductive HistoryError
  | file (e : FileError)
  /-- A path leads out of the directory. -/
  | outside
  | alreadyKept
  | notStaged
deriving Repr

/-- The wording of an error. -/
def HistoryError.message : HistoryError → Text
  | .file e => e.message
  | .outside => "chroot boundary crossed"
  | .alreadyKept => "repository already exists"
  | .notStaged => "entry not found"

/-- Starts a history for a directory, which is made if it is missing. -/
def startHistory (s : Site) (dir : Text) : Except HistoryError (Site × Place) := do
  let inside := Path.join dir Workspace.historyName
  let info := Path.join inside "objects/info"
  match s.workspace.locate info with
  | .error .notDirectory => throw (.file ⟨"stat", info, .notDirectory⟩)
  | _ => pure ()
  let w ← (s.workspace.ensureDirectory inside).mapError .file
  match w.locate dir with
  | .error fault => throw (.file ⟨"stat", dir, fault⟩)
  | .ok (p, _) =>
    if (s.history? p).isSome then throw .alreadyKept
    return ({ s with workspace := w }.setHistory p {}, p)

/-- The history of a directory, which is started if there is none. -/
def openHistory (s : Site) (dir : Text) : Except HistoryError (Site × Place) :=
  match s.startHistory dir with
  | .error .alreadyKept =>
    match s.workspace.locate dir with
    | .ok (p, _) => .ok (s, p)
    | .error fault => .error (.file ⟨"stat", dir, fault⟩)
  | result => result

/-- Stages what a path from a directory leads to: a file, or the files below a directory. -/
def stage (s : Site) (dir : Text) (p : Place) (path : Text) : Except HistoryError Site :=
  let h := (s.history? p).getD {}
  let rules := s.workspace.ignoreRules p
  let full := Path.join dir path
  if (Path.clean path).startsWith "../" then .error .outside
  else
    match s.workspace.locate full with
    | .ok (_, .file content) => .ok (s.setHistory p (h.stage path content rules))
    | .ok (_, .directory) =>
      .ok (s.setHistory p (h.stageBelow (Path.clean path) (s.filesOf p) rules))
    | .error .notFound => .error .notStaged
    | .error fault => .error (.file ⟨"lstat", full, fault⟩)

/-- Commits what is staged, unless the history is clean. -/
def commit (s : Site) (p : Place) (author message : Text) : Site :=
  let h := (s.history? p).getD {}
  if h.isClean (s.filesOf p) (s.workspace.ignoreRules p) then s
  else s.setHistory p (h.commit author message)

/-- The directories that hold a history or the place for one, outside of those places, with their
commits. -/
def kept (s : Site) : List (Place × List Commit) :=
  s.workspace.entries.filterMap fun (place, e) =>
    let dir := place.dropLast
    if e = .directory && place.getLast? = some Workspace.historyName &&
        !dir.contains Workspace.historyName then
      some (dir, ((s.history? dir).map History.commits).getD [])
    else none

end Site

end TinyLang
