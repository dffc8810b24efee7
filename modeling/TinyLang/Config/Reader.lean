import TinyLang.Config.Basic
import TinyLang.Yaml.Decode

/-!
# Reading a configuration

A configuration is read from the first document of a YAML stream. A field takes any value that can
be understood as its type; nothing in place of a value leaves the field as it is.
-/

namespace TinyLang

open Yaml (Decode)

namespace Config

/-- How the options of a run are read. -/
def runSchema : Decode.Schema RunOptions where
  typeName := "project.RunConfig"
  fields := ["trace", "maxSteps", "prompt"]
  set := fun r name node => do
    if name = "trace" then return { r with trace := (← Decode.bool node).getD r.trace }
    else if name = "maxSteps" then return { r with maxSteps := (← Decode.int node).getD r.maxSteps }
    else return { r with prompt := (← Decode.text node).getD r.prompt }

/-- How a configuration is read. -/
def schema (fuel : Nat) : Decode.Schema Config where
  typeName := "project.Config"
  fields := ["name", "version", "main", "author", "tli", "run"]
  set := fun c name node => do
    if name = "run" then return { c with run := ← Decode.record runSchema fuel c.run node }
    else
      let t ← Decode.text node
      if name = "name" then return { c with name := t.getD c.name }
      else if name = "version" then return { c with version := t.getD c.version }
      else if name = "main" then return { c with main := t.getD c.main }
      else if name = "author" then return { c with author := t.getD c.author }
      else return { c with tli := t.getD c.tli }

/-- Reads a configuration. -/
def ofYaml (t : Text) : Except Yaml.Error Config := do
  (← Yaml.readDocument t).record schema {}

end Config

end TinyLang
