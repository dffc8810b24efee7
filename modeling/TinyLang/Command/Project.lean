import TinyLang.Command.Source
import TinyLang.Question
import TinyLang.Url.Basic

/-!
# Commands on projects

Starting a project, showing its details, and checking the version that it asks for.
-/

namespace TinyLang.Command

/-! ## Starting a project -/

/-- The program that a new project starts with. -/
def sampleProgram : Text :=
  "let x = 0\nloop: let x = x + 1\nprint \"count:\", x\nif x < 5 goto loop\n"

/-- The message of the commit that a project starts with. -/
def firstMessage : Text := "Initialize TinyLang project"

/-- Asks a question, whose answer is a line of the input. -/
def ask {α : Type} (question : Text → Asked α) : Act α := do
  let asked := question (← get).input
  modify fun j => { j with input := asked.input }
  Act.say asked.written
  return asked.answer

/-- A setting of a new project: given as a flag, asked for, or the default. -/
def setting (r : Request) (flag question byDefault : Text) : Act Text := do
  let given := r.given.text flag
  if !given.isEmpty then return given
  else if r.given.isOn "interactive" then ask (Question.text question byDefault)
  else return byDefault

/-- The configuration of a new project in a directory. -/
def newConfig (r : Request) (dir : Text) : Act Config := do
  let here := (← Act.workspace).currentPath
  let conf := ({} : Config).withDefaults (Path.base (Path.absolute here dir))
  let name ← setting r "name" "Project name" conf.name
  let version ← setting r "version" "Project version" conf.version
  let main ← setting r "main" "Main file" conf.main
  let author ← setting r "author" "Author" conf.author
  return { conf with name, version, main, author, tli := "^" ++ toolVersion }

/-- The answer to whether a new configuration replaces what is there, if that has to be asked. -/
def overwriteAnswer (r : Request) (w : Workspace) (path : Text) : Act (Option Bool) := do
  if Config.mustAsk w path (r.given.isOn "force") then
    return some (← ask (Question.yesNo (Config.overwriteQuestion path) false))
  else return none

/-- The configuration that counts once a new one was saved or not. -/
def settleSaved (dir : Text) (conf : Config) (result : Config.Saved) : Act Config := do
  if let some e := result.error then
    Act.exit ("Error writing " ++ Config.fileName ++ ": " ++ e.message)
  else if result.saved then
    Act.setWorkspace result.workspace
    return conf
  else
    Act.sayLine ("Keeping the existing " ++ Config.fileName)
    match Config.load result.workspace dir with
    | .ok kept => return kept
    | .error e => Act.exit ("Error reading " ++ Config.fileName ++ ": " ++ e.message)

/-- Saves a new configuration, or keeps the one that is there, and gives the one that counts. -/
def settleConfig (r : Request) (dir : Text) (conf : Config) : Act Config := do
  let path := Path.join dir Config.fileName
  let w ← Act.workspace
  let answer ← overwriteAnswer r w path
  settleSaved dir conf (conf.saveCarefully w path (r.given.isOn "force") answer)

/-- Makes a change to the workspace that no command expects to fail. -/
def change (f : Workspace → Except FileError Workspace) : Act Unit := do
  match f (← Act.workspace) with
  | .ok w => Act.setWorkspace w
  | .error e => Act.fail e.message

/-- Writes the sample program if the main file does not exist. -/
def settleMain (dir main : Text) : Act Unit := do
  let path := Path.join dir main
  match (← Act.workspace).locate path with
  | .error .notFound =>
    change fun w => w.ensureDirectory (Path.directory path)
    change fun w => w.write path sampleProgram
  | _ => return

/-- Makes a change to a history. -/
def keep {α : Type} (result : Except Site.HistoryError α) : Act α :=
  match result with
  | .ok a => pure a
  | .error e => Act.exit ("Error creating git repository: " ++ e.message)

/-- Commits the configuration and the main file of a project. -/
def commitProject (dir : Text) (conf : Config) : Act Unit := do
  let (site, p) ← keep ((← get).site.openHistory dir)
  Act.setSite site
  for path in [Config.fileName, conf.main] do
    Act.setSite (← keep ((← get).site.stage dir p path))
  Act.setSite ((← get).site.commit p conf.author firstMessage)

/-! ## Templates -/

/-- Whether an address has slashes behind its first colon, as one with a scheme has. -/
def hasScheme (address : Text) : Bool :=
  match Text.cut? (Text.byte ':') address with
  | some (scheme, rest) => !scheme.isEmpty && Text.startsWith rest "//"
  | none => false

/-- Whether a text can be the path on a host: it does not start with a backslash, and is on one line
behind its first byte. -/
def isHostPath (t : Text) : Bool :=
  match t with
  | b :: r => b != Text.byte '\\' && !r.contains (Text.byte '\n')
  | [] => false

/-- Whether an address without a scheme is a host, a colon, perhaps a service number and another colon, and a
path. Any other is the path of a directory. -/
def hasHost (address : Text) : Bool :=
  match Text.cut? (Text.byte ':') address with
  | some (host, rest) =>
    !host.isEmpty && !host.any (fun b => (Text.ofString " \t\n\x0c\r").contains b) &&
      (isHostPath rest ||
        match Text.cut? (Text.byte ':') rest with
        | some (service, path) =>
          !service.isEmpty && service.length ≤ 5 && service.all Text.isDigit && isHostPath path
        | none => false)
  | none => false

/-- Why nothing can be cloned by way of a secure shell. -/
def noAgent : Text :=
  "error creating SSH agent: \"SSH agent requested but SSH_AUTH_SOCK not-specified\""

/-- The other schemes that something could be cloned by. -/
def cloneSchemes : List Text := ["http", "https", "git", "file"]

/-- Why no project can be cloned from an address. -/
def cloneFault (address : Text) : Text :=
  if address.isEmpty then "URL field is required"
  else if !hasScheme address then if hasHost address then noAgent else "repository not found"
  else
    match Url.read address with
    | .error e => e.message
    | .ok url =>
      if url.scheme.isEmpty then "permanent client error: invalid endpoint: " ++ address
      else if url.scheme = "ssh" then noAgent
      else if cloneSchemes.contains url.scheme then "repository not found"
      else "unsupported scheme " ++ url.scheme.quoted

/-- Tries to clone a template into a directory. No address can be reached; what was made for the clone
is taken away again, unless the directory held something before. -/
def cloneTemplate (dir template : Text) : Act Unit := do
  let failed := fun (reason : Text) => (Act.exit ("Error cloning template: " ++ reason) : Act Unit)
  let address := (template.takeWhile (· != Text.byte '@') : Text)
  let site := (← get).site
  match site.workspace.locate dir with
  | .ok (_, .file _) => failed ("path is not a directory: " ++ dir)
  | .error .notFound =>
    let above := Path.directory dir
    match site.workspace.ensureDirectory above with
    | .ok w => Act.setWorkspace w
    | .error _ => pure ()
    failed (cloneFault address)
  | .error fault => failed (FileError.message ⟨"stat", dir, fault⟩)
  | .ok (p, .directory) =>
    match site.startHistory dir with
    | .error e => failed e.message
    | .ok (started, _) =>
      if !(site.workspace.children p).isEmpty then Act.setSite started
      failed (cloneFault address)

/-- Starts a project in a directory. -/
def startProject (r : Request) : Act Unit := do
  let dir : Text := if r.first.isEmpty then "." else r.first
  let template := r.given.text "template"
  if template.isEmpty then change fun w => w.ensureDirectory dir
  else cloneTemplate dir template
  let conf ← newConfig r dir
  let conf ← settleConfig r dir conf
  settleMain dir conf.main
  if !r.given.isOn "no-git" then commitProject dir conf
  Act.sayLine ("Initialized project " ++ conf.name ++ " in " ++ dir)

/-! ## Details and version -/

/-- A line of dashes. -/
def rule : Text := List.replicate 50 (Text.byte '-')

/-- The details of a project. -/
def details (c : Config) : List Text :=
  [rule, "                  Project Details                 ", rule,
    "Name        : " ++ c.name, "Version     : " ++ c.version, "Main File   : " ++ c.main,
    "Author      : " ++ c.author, "Requires    : tli " ++ c.tli, rule]

/-- Shows the details of the current project. -/
def showInfo (r : Request) : Act Unit := do
  match ← findConfig r with
  | some c => (details c).forM Act.sayLine
  | none =>
    let here := (← Act.workspace).currentPath
    Act.exit ("Error: no " ++ Config.fileName ++ " in " ++ here)

/-- Shows the tool's version, and whether it is what the project asks for. -/
def showVersion (r : Request) : Act Unit := do
  Act.sayLine (toolName ++ " " ++ toolVersion)
  if let some c ← findConfig r then
    if !c.tli.isEmpty then
      checkVersion c
      Act.sayLine (c.name ++ " requires tli " ++ c.tli ++ ": ok")

end TinyLang.Command
