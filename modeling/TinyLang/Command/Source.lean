import TinyLang.Command.Catalog
import TinyLang.Command.Job
import TinyLang.Config.Store
import TinyLang.Program
import TinyLang.Version

/-!
# The program of a command

A command works on the file that is its first argument, or else on the main file that the
configuration names. A configuration that asks for another version of the tool stops the command.
-/

namespace TinyLang.Command

/-- What a command was given. -/
structure Request where
  given : Given
  arguments : List Text

namespace Request

/-- The first argument, empty if there is none. -/
def first (r : Request) : Text := r.arguments.headD []

/-- The path of the configuration, if one was named. -/
def configPath (r : Request) : Text := r.given.text "config"

end Request

/-- Stops if a configuration asks for another version. -/
def checkVersion (c : Config) : Act Unit := do
  if c.tli.isEmpty then return
  match Version.read toolVersion with
  | .error e => Act.fail e.message
  | .ok v =>
    match v.satisfies c.tli with
    | .error e =>
      Act.exit ("Error: invalid tli requirement " ++ c.tli.quoted ++ ": " ++ e.message)
    | .ok true => return
    | .ok false =>
      Act.exit ("Error: project requires tli " ++ c.tli ++ ", this is " ++ toolVersion)

/-- Finds the configuration that a command uses. -/
def findConfig (r : Request) : Act (Option Config) := do
  let w ← Act.workspace
  match Config.find w w.currentPath r.configPath with
  | .ok c => return c
  | .error e => Act.exit ("Error reading config: " ++ e.message)

/-- The path of the program that a command works on, and the configuration. -/
def findSource (r : Request) : Act (Text × Config) := do
  let found ← findConfig r
  if let some c := found then checkVersion c
  let conf := found.getD {}
  if !r.first.isEmpty then return (r.first, conf)
  else if conf.main.isEmpty then Act.exit "Error: No file specified"
  else
    let base ←
      if r.configPath.isEmpty then (·.currentPath) <$> Act.workspace
      else pure (Path.directory r.configPath)
    return (Path.join base conf.main, conf)

/-- The text of a program. -/
def readSource (path : Text) : Act Text := do
  match (← Act.workspace).read path with
  | .ok src => return src
  | .error e => Act.exit ("Error: " ++ e.message)

/-- Ends with an error in the program, which belongs to the output. -/
def stopWith {α : Type} (message : Text) : Act α := do
  Act.sayLine message
  Act.exit []

/-- Loads the program that a command works on, and gives its path and the configuration too. -/
def loadProgram (r : Request) : Act (Program × Text × Config) := do
  let (path, conf) ← findSource r
  match Program.load path (← readSource path) with
  | .ok p => return (p, path, conf)
  | .error d => stopWith d.report.message

end TinyLang.Command
