import TinyLang.Command.Catalog
import TinyLang.Text.Columns

/-!
# Help pages

The page of the tool, with its commands by category, and the page of one command.
-/

namespace TinyLang.Command

/-- The forms of a flag as they are typed. -/
def Flag.forms (f : Flag) : Text :=
  let value : Text := if f.takesValue then " value" else []
  let all := Text.join ", " (f.names.map fun name => typedForm name ++ value)
  if f.kind = .texts then all ++ " [ " ++ all ++ " ]" else all

/-- What a flag is if it is not given, as the help tells it. The default of a text is known only
once the flags that it belongs to have been read. -/
def Flag.defaultText (known : Bool) (f : Flag) : Text :=
  if !f.tellsDefault then []
  else
    match f.kind with
    | .switch => " (default: false)"
    | .integer => " (default: 0)"
    | .text t => if t.isEmpty || !known then [] else " (default: " ++ t.quoted ++ ")"
    | .texts => []

/-- The lines on flags, with the defaults of texts if they are known. -/
def flagLines (known : Bool) (flags : List Flag) : Text :=
  flags.flatMap fun f => "   " ++ f.forms ++ "\t" ++ f.usage ++ f.defaultText known ++ "\n"

/-- The line on the command for help. -/
def helpLine : Text := "   help, h  " ++ helpUsage ++ "\n"

/-- The commands of a category. -/
def categoryLines (category : Text) : Text :=
  let line := fun (c : Spec) => ("     " ++ c.name ++ "\t" ++ c.usage ++ "\n" : Text)
  "   " ++ category ++ ":\n" ++ (commands.filter fun c => c.category = category).flatMap line

/-- Lays a page out. -/
def page (t : Text) : Text := t.layout 1 2

/-- The name of a command with what it does. -/
def nameSection (path usage : Text) : Text := "NAME:\n   " ++ path ++ " - " ++ usage ++ "\n\n"

/-- The flags of the tool itself. -/
def toolFlags : List Flag := runFlags ++ [helpFlag, versionFlag]

/-- The help page of the tool. -/
def toolPage : Text :=
  page <| nameSection toolName toolUsage ++
    "USAGE:\n   " ++ toolName ++ " [global options] command [command options] <file>\n\n" ++
    "VERSION:\n   " ++ toolVersion ++ "\n\n" ++
    "COMMANDS:\n" ++ helpLine ++ categories.flatMap categoryLines ++ "\n" ++
    "GLOBAL OPTIONS:\n" ++ flagLines true toolFlags

/-- How the arguments of a command are called. -/
def argumentsText (arguments : Text) : Text :=
  if arguments.isEmpty then "[arguments...]" else arguments

/-- The path of a command: the words that call it. -/
def Spec.path (c : Spec) : Text := toolName ++ " " ++ c.name

/-- The flags of a command, with the one for help. -/
def Spec.allFlags (c : Spec) : List Flag := c.flags ++ [helpFlag]

/-- The help page of a command, whose flags have been read or not. -/
def commandPage (read : Bool) (c : Spec) : Text :=
  page <| nameSection c.path c.usage ++
    "USAGE:\n   " ++ c.path ++ " [command options] " ++ argumentsText c.arguments ++ "\n\n" ++
    "CATEGORY:\n   " ++ c.category ++ "\n\n" ++
    "OPTIONS:\n" ++ flagLines read c.allFlags

/-- The page that follows an error in the flags of a command. -/
def usagePage (c : Spec) : Text :=
  page <| nameSection c.path c.usage ++
    "USAGE:\n   " ++ c.path ++ " command [command options] " ++ argumentsText c.arguments ++
    "\n\nCOMMANDS:\n" ++ helpLine ++ "\nOPTIONS:\n" ++ flagLines true c.allFlags

/-- The help page of the command for help, which is called by `path`. -/
def helpPage (path : Text) : Text :=
  page <| nameSection path helpUsage ++
    "USAGE:\n   " ++ path ++ " [command options] [command]\n\n" ++
    "OPTIONS:\n" ++ flagLines true [helpFlag]

/-- The page that follows an error in the flags of the command for help. -/
def helpUsagePage (path : Text) : Text :=
  page <| nameSection path helpUsage ++
    "USAGE:\n   " ++ path ++ " command [command options] [command]\n\n" ++
    "COMMANDS:\n" ++ helpLine ++ "\nOPTIONS:\n" ++ flagLines true [helpFlag]

end TinyLang.Command
