import TinyLang.Command.Completion
import TinyLang.Command.Help
import TinyLang.Command.Program
import TinyLang.Command.Project

/-!
# Calling the tool

The first argument behind the tool's own flags names a command, or asks for help; any other makes the
tool run a program. Help is shown for a flag, for the command that asks for it, and after an error in
the flags. When a line is completed, the commands named on it are followed, and suggestions are
written where the next word names none.
-/

namespace TinyLang.Command

/-- Does what a command is for. -/
def doTask (programs : Programs) : Task → Request → Act Unit
  | .run, r => runProgram r
  | .check, r => checkProgram r
  | .format, r => formatProgram r
  | .build, r => buildProgram programs r
  | .start, r => startProject r
  | .info, r => showInfo r
  | .version, r => showVersion r

/-- A level of the command line: the flags that can be given there, and the names that can be called
behind them. -/
structure Level where
  flags : List Flag
  names : List Text

/-- The names of the command for help. -/
def helpNames : List Text := ["help", "h"]

/-- The level of the tool. -/
def toolLevel : Level := ⟨toolFlags, commands.map Spec.name ++ helpNames⟩

/-- The level of a command. -/
def Spec.level (c : Spec) : Level := ⟨c.allFlags, helpNames⟩

/-- The level of the command for help. -/
def helpLevel : Level := ⟨[helpFlag], helpNames⟩

/-- Reads the flags of a level and goes on with what stands behind them. An error is shown with a page
that helps. On a line that is completed, suggestions are written unless a name is called; there is no
word for a line with an error. -/
def atLevel (line : Option (List Text)) (level : Level) (help : Text) (args : List Text)
    (next : Request → Act Unit) : Act Unit := do
  match line, readFlags level.flags args with
  | none, .ok (given, arguments) => next ⟨given, arguments⟩
  | none, .error e =>
    Act.say ("Incorrect Usage: " ++ e.message ++ "\n\n" ++ help)
    Act.fail e.message
  | some words, .ok (given, arguments) =>
    let r : Request := ⟨given, arguments⟩
    if level.names.contains r.first then next r
    else (suggestions words level.flags level.names).forM Act.sayLine
  | some _, .error _ => Act.exitWith 2 []

/-- The message for a topic without help. -/
def noTopic (topic : Text) : Text := "No help topic for '" ++ topic ++ "'"

/-! ## Help -/

/-- Where help is asked for: at the tool, at one of its commands, or at the command for help, whose
page calls it by `path`. -/
inductive HelpPlace
  | tool
  | command (c : Spec)
  | help (path : Text)

namespace HelpPlace

/-- The page of a place. -/
def page : HelpPlace → Text
  | tool => toolPage
  | command c => commandPage true c
  | help path => helpPage path

/-- The words that the page of the command for help has for it, once it is called at a place. Those
of the tool are left out, and the command for help is its own. -/
def helpPath : HelpPlace → Text
  | tool => " help"
  | command c => c.path ++ " help"
  | help path => path

/-- The command for help of a place, as a place. -/
def inner (p : HelpPlace) : HelpPlace := help p.helpPath

/-- The page of a topic at a place. At the tool, the command for help has no words before it is
called. -/
def topic? (p : HelpPlace) (topic : Text) : Option Text :=
  match p, isHelp topic with
  | tool, true => some (helpPage [])
  | tool, false => (command? topic).map (commandPage false)
  | p, true => some (helpPage p.helpPath)
  | _, false => none

end HelpPlace

/-- Shows the page of a place, or of the topic that is asked for there. -/
def showHelp (p : HelpPlace) (topic : Text) (unknown : Text → Act Unit) : Act Unit :=
  if topic.isEmpty then Act.say p.page
  else
    match p.topic? topic with
    | some t => Act.say t
    | none => unknown (noTopic topic)

/-- The command for help, called at a place. -/
def helpAt (line : Option (List Text)) : (fuel : Nat) → HelpPlace → List Text → Act Unit
  | 0, _, _ => return
  | fuel + 1, p, args =>
    let ownPage := helpUsagePage p.helpPath
    atLevel line helpLevel ownPage args fun r => do
      if r.given.isOn "help" then
        if isHelp r.first then Act.say ownPage else showHelp p r.first Act.fail
      else if isHelp r.first then helpAt line fuel p.inner (r.arguments.drop 1)
      else showHelp p r.first (Act.exitWith 3)

/-! ## Calling -/

/-- Calls a command with the arguments behind its name. -/
def callCommand (programs : Programs) (line : Option (List Text)) (c : Spec) (args : List Text) :
    Act Unit :=
  atLevel line c.level (usagePage c) args fun r => do
    if r.given.isOn "help" then showHelp (.command c) r.first Act.fail
    else if isHelp r.first then helpAt line (r.arguments.length + 1) (.command c) (r.arguments.drop 1)
    else doTask programs c.task r

/-- Calls the tool. -/
def call (programs : Programs) (args : List Text) : Act Unit :=
  let line := completedLine? args
  atLevel line toolLevel toolPage (line.getD args) fun r => do
    if r.given.isOn "help" then showHelp .tool r.first Act.fail
    else if r.given.isOn "version" then Act.sayLine (toolName ++ " version " ++ toolVersion)
    else if isHelp r.first then helpAt line (r.arguments.length + 1) .tool (r.arguments.drop 1)
    else
      match command? r.first with
      | some c => callCommand programs line c (r.arguments.drop 1)
      | none => doTask programs .run r

/-- The programs that need nothing from the machine they run on. -/
def standardPrograms : Programs := [("true", 0), ("false", 1)]

/-- Calls the tool at a site. -/
def invoke (programs : Programs) (site : Site) (args : List Text) (input : Text) : Outcome :=
  perform (call programs args) site input

end TinyLang.Command
