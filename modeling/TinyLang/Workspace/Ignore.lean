import TinyLang.Table
import TinyLang.Text.Space
import TinyLang.Text.Wildcard
import TinyLang.Workspace.Basic

/-!
# Ignored files

A directory with a history may name files that the history does not look at. Each directory below it
has two lists of patterns for that, whose patterns count from there on down. A pattern without a slash
inside speaks of names, wherever they stand on a path; one with a slash speaks of a path from its
directory on, in which `**` stands for any directories. The last pattern that fits decides, and an
exclamation mark makes it one that keeps files.
-/

namespace TinyLang

/-- A pattern for files that are ignored, or kept. -/
structure IgnoreRule where
  /-- The directory where the pattern stands. -/
  domain : List Text
  keeps : Bool
  directoriesOnly : Bool
  /-- The pattern between its slashes. -/
  parts : List Text
deriving DecidableEq, Repr

namespace IgnoreRule

/-- Whether a text ends in a space behind a backslash. -/
def endsInEscapedSpace (t : Text) : Bool := t.endsWith "\\ "

/-- Reads a pattern that stands in a directory. -/
def ofLine (domain : List Text) (line : Text) : IgnoreRule :=
  let keeps := Text.startsWith line "!"
  let body : Text := if keeps then line.drop 1 else line
  let trimmed : Text :=
    if endsInEscapedSpace body then body else (body.reverse.dropWhile (· = 32)).reverse
  let directoriesOnly := Path.endsInSlash trimmed
  let pattern : Text := if directoriesOnly then trimmed.dropLast else trimmed
  ⟨domain, keeps, directoriesOnly, pattern.pieces Path.slash⟩

/-- Whether a name on a path fits a pattern for names. A pattern for directories needs one: a name in
the last place is none unless the path is that of a directory. -/
def fitsName (r : IgnoreRule) (isDirectory : Bool) (pattern : Text) (path : List Text) : Bool :=
  match path.dropWhile fun name => !name.isLike pattern with
  | [] => false
  | _ :: below => !(r.directoriesOnly && !isDirectory && below.isEmpty)

/-- The part of a pattern that stands for any directories. -/
def anyDirectories : Text := "**"

/-- Goes along a path with the parts of a pattern, and gives the rest of the path. `fits` tells whether
the part before fitted, and `skips` whether names may be passed over to find the next. -/
def along (fits skips : Bool) : List Text → List Text → Option (Bool × List Text)
  | [], path => some (fits, path)
  | part :: parts, path =>
    if part.isEmpty then along fits false parts path
    else if part = anyDirectories then
      if parts.isEmpty then some (fits, path) else along fits true parts path
    else if Text.hasInfix anyDirectories part then none
    else
      match path, skips with
      | [], _ => none
      | path, true =>
        match path.dropWhile fun name => !name.isLike part with
        | [] => along false false parts []
        | _ :: below => along true false parts below
      | name :: below, false => if name.isLike part then along true false parts below else none

/-- Whether a path fits a pattern for paths. -/
def fitsPath (r : IgnoreRule) (isDirectory : Bool) (path : List Text) : Bool :=
  match along false false r.parts path with
  | none => false
  | some (fits, below) => fits && !(r.directoriesOnly && !isDirectory && below.isEmpty)

/-- Whether a path fits a pattern. It has to lead below the directory of the pattern. -/
def fits (r : IgnoreRule) (isDirectory : Bool) (path : List Text) : Bool :=
  let inner := path.drop r.domain.length
  r.domain.isPrefixOf path && !inner.isEmpty &&
    match r.parts with
    | [pattern] => r.fitsName isDirectory pattern inner
    | _ => r.fitsPath isDirectory inner

end IgnoreRule

/-- Whether patterns, the last of which count first, ignore a path. -/
def ignores (rules : List IgnoreRule) (isDirectory : Bool) (path : List Text) : Bool :=
  match rules.reverse.find? fun r => r.fits isDirectory path with
  | some r => !r.keeps
  | none => false

/-! ## Lists of patterns -/

/-- The length that a line of a list must stay below; the list ends at a line that does not. -/
def ignoreLineLimit : Nat := 65536

/-- The lines of a text without their line ends. -/
def ignoreLines (t : Text) : List Text :=
  let lines := t.pieces (Text.byte '\n')
  let ended : List Text := if lines.getLast? = some [] then lines.dropLast else lines
  (ended.takeWhile fun l => l.length < ignoreLineLimit).map fun l =>
    if l.getLast? = some (Text.byte '\r') then l.dropLast else l

/-- The patterns of a list that stands in a directory. Lines of white space and those that start with
a number sign are none. -/
def ignoreRules (domain : List Text) (t : Text) : List IgnoreRule :=
  ((ignoreLines t).filter fun l => !Text.startsWith l "#" && !l.trim.isEmpty).map
    (IgnoreRule.ofLine domain)

namespace Workspace

/-- The directory that holds a history. -/
def historyName : Text := ".git"

/-- The names from a directory to its lists of patterns. -/
def ignoreLists : List Place := [[historyName, "info", "exclude"], [".gitignore"]]

/-- The names of the directories directly in a directory, in order. -/
def directoriesIn (w : Workspace) (p : Place) : List Text :=
  (Table.ofEntries ((w.children p).filterMap fun e =>
    match e.2, e.1.getLast? with
    | .directory, some name => some (name, ())
    | _, _ => none)).map Prod.fst

/-- The patterns of the lists in a directory itself. -/
def ignoreRulesIn (w : Workspace) (root : Place) (path : List Text) : List IgnoreRule :=
  ignoreLists.flatMap fun names =>
    match w.entry? (root ++ path ++ names) with
    | some (.file content) => TinyLang.ignoreRules path content
    | _ => []

/-- The patterns of a directory and those below it, for a history of `root`. Directories that are
ignored by what was read since are left out. -/
def ignoreRulesFrom (w : Workspace) (root : Place) : (fuel : Nat) → List Text → List IgnoreRule
  | 0, _ => []
  | fuel + 1, path =>
    (w.directoriesIn (root ++ path)).foldl (fun rules name =>
      let below := path ++ [name]
      if name = historyName || ignores rules true below then rules
      else rules ++ ignoreRulesFrom w root fuel below) (w.ignoreRulesIn root path)

/-- The patterns for a history of a directory. -/
def ignoreRules (w : Workspace) (root : Place) : List IgnoreRule :=
  w.ignoreRulesFrom root (w.entries.length + 1) []

end Workspace

end TinyLang
