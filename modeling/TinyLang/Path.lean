import TinyLang.Text.Basic

/-!
# Paths

Names of files as texts with slashes. The operations here are lexical: they look at the text only,
never at what files there are.
-/

namespace TinyLang

namespace Path

/-- The byte between the parts of a path. -/
def slash : UInt8 := Text.byte '/'

/-- The parts of a path, without empty ones. -/
def parts (p : Text) : List Text := (p.pieces slash).filter fun t => !t.isEmpty

/-- Whether a path starts at the root. -/
def isAbsolute (p : Text) : Bool := p.head? = some slash

/-- Whether a path ends with a slash. -/
def endsInSlash (p : Text) : Bool := p.getLast? = some slash

/-- Puts a part on the parts before it, the nearest first. A part for the directory above takes the
last one away. -/
def push (absolute : Bool) (before : List Text) (part : Text) : List Text :=
  if part = "." then before
  else if part = ".." then
    match before with
    | [] => if absolute then [] else [part]
    | last :: rest => if last = ".." then part :: before else rest
  else part :: before

/-- The shortest path with the same meaning. -/
def clean (p : Text) : Text :=
  let absolute := isAbsolute p
  let body := Text.join "/" ((parts p).foldl (push absolute) []).reverse
  if absolute then slash :: body
  else if body.isEmpty then "."
  else body

/-- Puts one path behind another. -/
def join (p q : Text) : Text :=
  match p.isEmpty, q.isEmpty with
  | true, true => []
  | true, false => clean q
  | false, true => clean p
  | false, false => clean (p ++ slash :: q)

/-- The last part of a path. -/
def base (p : Text) : Text :=
  match (parts p).getLast? with
  | some part => part
  | none => if p.isEmpty then "." else "/"

/-- The directory that a path names an entry of. -/
def directory (p : Text) : Text :=
  clean (p.reverse.dropWhile (· != slash)).reverse

/-- The end of the last part from its last period on. -/
def extension (p : Text) : Text :=
  let last := (p.reverse.takeWhile (· != slash)).reverse
  match last.reverse.dropWhile (· != Text.byte '.') with
  | [] => []
  | _ :: before => last.drop before.length

/-- A path from the root, for one that starts at a directory. -/
def absolute (from_ p : Text) : Text := if isAbsolute p then clean p else join from_ p

end Path

end TinyLang
