import TinyLang.Command.Flag

/-!
# The commands

What commands there are, which flags they have, and what the help says about them.
-/

namespace TinyLang.Command

/-- What a command does. -/
inductive Task
  | run
  | check
  | format
  | build
  | start
  | info
  | version
deriving DecidableEq, Repr

/-- A command. -/
structure Spec where
  name : Text
  usage : Text
  /-- The heading that the command stands under in the list of commands. -/
  category : Text
  /-- How the arguments behind the flags are called; empty if they have no name. -/
  arguments : Text
  flags : List Flag
  task : Task
deriving DecidableEq, Repr

/-- The name of the tool. -/
def toolName : Text := "tli"

/-- The version of the tool. -/
def toolVersion : Text := "0.1.0"

/-- What the tool is for. -/
def toolUsage : Text := "Run TinyLang, a line-oriented language of let, if/goto, print and input"

/-! ## Flags -/

/-- The flag that every command has. -/
def helpFlag : Flag := ⟨"help", some "h", "show help", .switch, false⟩

/-- The flag that asks the tool for its version. -/
def versionFlag : Flag := ⟨"version", some "v", "print the version", .switch, false⟩

/-- The flag that names a configuration. -/
def configFlag : Flag :=
  { name := "config", short := some "c", usage := "The path to the config file", kind := .text [] }

/-- The flags for running a program. -/
def runFlags : List Flag :=
  [configFlag,
    { name := "trace", short := some "t", usage := "Print each statement to stderr before it runs"
      kind := .switch },
    { name := "max-steps", short := none
      usage := "Stop after this many statements (0 for no limit)", kind := .integer }]

/-- The flags for checking a program. -/
def checkFlags : List Flag :=
  [configFlag,
    { name := "dump", short := some "d", usage := "Dump the loaded program", kind := .switch },
    { name := "strict", short := none, usage := "Exit with an error if there are any warnings"
      kind := .switch }]

/-- The flags for formatting a program. -/
def formatFlags : List Flag :=
  [configFlag,
    { name := "write", short := some "w", usage := "Write the result back to the source file"
      kind := .switch }]

/-- The compiler that is used if none is named. -/
def defaultCompiler : Text := "clang"

/-- The flags for building an executable. -/
def buildFlags : List Flag :=
  [configFlag,
    { name := "output", short := some "o"
      usage := "The name for the built binary (or .ll file with --emit-llvm, - for stdout)"
      kind := .text [] },
    { name := "emit-llvm", short := some "S"
      usage := "Write LLVM IR instead of linking an executable", kind := .switch },
    { name := "cc", short := none, usage := "The compiler used to build the IR and the runtime"
      kind := .text defaultCompiler },
    { name := "clang-args", short := some "a"
      usage := "Pass additional arguments to the compiler. Useful for passing flags like -O2 or -g."
      kind := .texts },
    { name := "debug", short := some "d", usage := "Keep the intermediate build files"
      kind := .switch }]

/-- The flags for starting a project. -/
def startFlags : List Flag :=
  [{ name := "name", short := some "n", usage := "The name of the project", kind := .text [] },
    { name := "version", short := none, usage := "The version of the project", kind := .text [] },
    { name := "main", short := some "m", usage := "The main file of the project", kind := .text [] },
    { name := "author", short := some "a", usage := "The author of the project", kind := .text [] },
    { name := "template", short := some "t"
      usage := "Clone the project from a git repository (url[@branch])", kind := .text [] },
    { name := "force", short := some "f", usage := "Overwrite an existing config without asking"
      kind := .switch },
    { name := "interactive", short := some "i"
      usage := "Ask for every setting not given as a flag (the default on a terminal)"
      kind := .switch },
    { name := "no-git", short := none, usage := "Don't create a git repository", kind := .switch }]

/-! ## Commands -/

/-- The commands, in the order of the help. -/
def commands : List Spec :=
  [⟨"build", "Compile a TinyLang program to a native executable", "compile", "<file>", buildFlags,
      .build⟩,
    ⟨"init", "Initialize a new TinyLang project", "project", "[dir]", startFlags, .start⟩,
    ⟨"info", "Display the details of the current project", "project", [], [configFlag], .info⟩,
    ⟨"run", "Run a TinyLang program", "run", "<file>", runFlags, .run⟩,
    ⟨"check", "Load a program without running it and report likely mistakes", "run", "<file>",
      checkFlags, .check⟩,
    ⟨"fmt", "Print a program in canonical form", "run", "<file>", formatFlags, .format⟩,
    ⟨"version", "Print the tli version and check it against the project's requirement", "version",
      [], [configFlag], .version⟩]

/-- The headings of the list of commands, in order. -/
def categories : List Text := ["compile", "project", "run", "version"]

/-- The command of a name. -/
def command? (name : Text) : Option Spec := commands.find? fun c => c.name = name

/-- Whether a word asks for help. -/
def isHelp (name : Text) : Bool := name = "help" || name = "h"

/-- What the command for help does. -/
def helpUsage : Text := "Shows a list of commands or help for one command"

end TinyLang.Command
