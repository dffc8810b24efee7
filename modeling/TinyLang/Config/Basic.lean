import TinyLang.Yaml.Writer

/-!
# Project configuration

What a project says about itself: its name, version, main file and author, the version of the tool
that it needs, and how its program is run. It is written as a small YAML document.
-/

namespace TinyLang

/-- How a project's program is run. -/
structure RunOptions where
  trace : Bool := false
  /-- The number of statements after which a run is cut; no limit unless positive. -/
  maxSteps : Int := 0
  prompt : Text := []
deriving DecidableEq, Repr, Inhabited

/-- The configuration of a project. -/
structure Config where
  name : Text := []
  version : Text := []
  main : Text := []
  author : Text := []
  /-- The constraint on the version of the tool; empty if there is none. -/
  tli : Text := []
  run : RunOptions := {}
deriving DecidableEq, Repr, Inhabited

namespace Config

/-- The name of the file that holds a project's configuration. -/
def fileName : Text := "tliconf.yaml"

/-- Sets what a new project of a name says about itself. -/
def withDefaults (c : Config) (name : Text) : Config :=
  { c with
    name := if name.isEmpty || name = "." then "NewProject" else name
    version := "1.0.0"
    main := "main.tl"
    author := "Anonymous" }

/-- A line with a text. -/
def textLine (indent : Nat) (key : Text) (value : Text) : Text :=
  List.replicate indent 32 ++ key ++ (": " : Text) ++ Yaml.writeText (indent + 4) value

/-- The configuration as a document. A constraint and a prompt that are empty are left out. -/
def toYaml (c : Config) : Text :=
  textLine 0 "name" c.name ++ textLine 0 "version" c.version ++ textLine 0 "main" c.main ++
    textLine 0 "author" c.author ++
    (if c.tli.isEmpty then [] else textLine 0 "tli" c.tli) ++
    "run:\n" ++
    "    trace: " ++ (if c.run.trace then "true\n" else "false\n") ++
    "    maxSteps: " ++ Text.ofInt c.run.maxSteps ++ "\n" ++
    (if c.run.prompt.isEmpty then [] else textLine 4 "prompt" c.run.prompt)

end Config

end TinyLang
