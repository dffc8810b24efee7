import TinyLang.Config.Reader
import TinyLang.Workspace.Basic

/-!
# Configurations in a workspace

Loading a configuration from a file or a directory, finding the one of a project, and saving one
without replacing another unasked.
-/

namespace TinyLang

namespace Config

/-- Why there is no configuration. -/
inductive LoadError where
  | file (e : FileError)
  /-- The path leads to a directory. -/
  | directory (path : Text)
  | content (e : Yaml.Error)
deriving Repr

namespace LoadError

/-- The wording of an error. -/
def message : LoadError → Text
  | .file e => e.message
  | .directory path => "yaml: input error: read " ++ path ++ ": is a directory"
  | .content e => e.message

/-- Whether the file is missing, rather than unusable. -/
def isMissing : LoadError → Bool
  | .file e => e.fault = .notFound
  | _ => false

end LoadError

/-- Loads the configuration in a file. -/
def loadFile (w : Workspace) (path : Text) : Except LoadError Config :=
  match w.locate path with
  | .error fault => .error (.file ⟨"open", path, fault⟩)
  | .ok (_, .directory) => .error (.directory path)
  | .ok (_, .file content) => (ofYaml content).mapError .content

/-- Loads the configuration of a project's directory. -/
def load (w : Workspace) (dir : Text) : Except LoadError Config :=
  loadFile w (Path.join dir fileName)

/-- The configuration at a path, or that of a directory if the path is empty. A directory may have
none; a path that is given must lead to one. -/
def find (w : Workspace) (dir path : Text) : Except LoadError (Option Config) :=
  if path.isEmpty then
    match load w dir with
    | .ok c => .ok (some c)
    | .error e => if e.isMissing then .ok none else .error e
  else (loadFile w path).map some

/-- The question before a file is replaced. -/
def overwriteQuestion (path : Text) : Text := path ++ " already exists. Overwrite?"

/-- Whether something stands at the path of a configuration already. -/
def isTaken (w : Workspace) (path : Text) : Bool :=
  match w.locate path with
  | .ok _ => true
  | .error _ => false

/-- Writes a configuration to a path, replacing what it held. -/
def save (c : Config) (w : Workspace) (path : Text) : Except FileError Workspace :=
  w.write path c.toYaml

/-- What saving with care for an existing file came to. -/
structure Saved where
  workspace : Workspace
  saved : Bool
  /-- The question, if it was asked. -/
  asked : Option Text
  error : Option FileError

/-- Whether an existing file is replaced only if the answer to a question says so. -/
def mustAsk (w : Workspace) (path : Text) (overwrite : Bool) : Bool := isTaken w path && !overwrite

/-- Writes a configuration to a path. An existing file is replaced if `overwrite` says so or the
answer to the question, if it can be asked, is yes. -/
def saveCarefully (c : Config) (w : Workspace) (path : Text) (overwrite : Bool)
    (confirm : Option Bool) : Saved :=
  let ask := mustAsk w path overwrite
  let asked := if ask && confirm.isSome then some (overwriteQuestion path) else none
  if ask && confirm != some true then ⟨w, false, asked, none⟩
  else
    match c.save w path with
    | .ok w => ⟨w, true, asked, none⟩
    | .error e => ⟨w, false, asked, some e⟩

end Config

end TinyLang
