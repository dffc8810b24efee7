import TinyLang.Code.Compile
import TinyLang.Code.Printer
import TinyLang.Command.Dump
import TinyLang.Command.Source
import TinyLang.Finding
import TinyLang.Machine.Run

/-!
# Commands on programs

Running, checking, formatting and building a program.
-/

namespace TinyLang.Command

/-! ## Running -/

/-- More statements than any run gets to start. -/
def patience : Nat := 4000000000000000000

/-- The number of statements of a traced run, and the final values of its variables. -/
def traceSummary (m : Machine) : Text :=
  "Steps: " ++ Text.ofNat m.steps ++ "\n" ++
    m.vars.flatMap fun (name, v) => ("  " ++ name ++ " = " ++ v.text ++ "\n" : Text)

/-- How a run is set up: flags go before the configuration. -/
def runSettings (r : Request) (conf : Config) : Settings where
  limit := (r.given.integer? "max-steps").getD conf.run.maxSteps
  prompt := []
  tracing := r.given.isOn "trace" || conf.run.trace

/-- Runs a program. -/
def runProgram (r : Request) : Act Unit := do
  let (p, _, conf) ← loadProgram r
  let settings := runSettings r conf
  let (m, ending) := Machine.run settings p patience 1 (.start p (← get).input none)
  Act.say m.output.text
  if settings.tracing then Act.note (m.traceText false ++ traceSummary m)
  match ending with
  | .finished => return
  | .stopped (.failed d) => stopWith d.report.message
  | _ => Act.exit ("Error: " ++ ending.message?.getD [])

/-! ## Checking -/

/-- Reports likely mistakes in a program. -/
def checkProgram (r : Request) : Act Unit := do
  let (path, _) ← findSource r
  match Program.load path (← readSource path) with
  | .error d => stopWith (path ++ ": " ++ d.report.detail)
  | .ok p =>
    if r.given.isOn "dump" then Act.say (dump p)
    let findings := p.findings
    findings.forM fun f => Act.sayLine (path ++ ":" ++ f.text)
    if findings.isEmpty then Act.sayLine (path ++ ": ok")
    else if r.given.isOn "strict" then
      Act.exit (Text.ofNat findings.length ++ " warning(s)")

/-! ## Formatting -/

/-- Writes a file, or ends with an error. -/
def writeFile (path content : Text) : Act Unit := do
  match (← Act.workspace).write path content with
  | .ok w => Act.setWorkspace w
  | .error e => Act.exit ("Error writing " ++ path ++ ": " ++ e.message)

/-- Prints a program in its canonical form, or puts that form into its file. -/
def formatProgram (r : Request) : Act Unit := do
  let (p, path, _) ← loadProgram r
  if r.given.isOn "write" then writeFile path p.source else Act.say p.source

/-! ## Building -/

/-- Programs that can be started by name, each with the exit code that it ends with. -/
abbrev Programs := List (Text × Nat)

/-- Why a compiler did not do its work. -/
inductive CompilerFault
  | unnamed
  | missing (name : Text)
  | unusable (path : Text) (reason : Text)
  | ended (code : Nat)

/-- The wording of a fault. -/
def CompilerFault.message : CompilerFault → Text
  | unnamed => "exec: no command"
  | missing name => "exec: " ++ name.quoted ++ ": executable file not found in $PATH"
  | unusable path reason => "fork/exec " ++ path ++ ": " ++ reason
  | ended code => "exit status " ++ Text.ofNat code

/-- Starts a compiler. A name with a slash is a path, and no file of a workspace can be started. -/
def startCompiler (programs : Programs) (w : Workspace) (name : Text) : Option CompilerFault :=
  if name.isEmpty then some .unnamed
  else if name.contains Path.slash then
    match w.locate name with
    | .ok _ => some (.unusable name "permission denied")
    | .error fault => some (.unusable name fault.message)
  else
    match programs.find? fun e => e.1 = name with
    | none => some (.missing name)
    | some (_, 0) => none
    | some (_, code) => some (.ended code)

/-- The name of the executable built from a file. -/
def executableName (path : Text) : Text :=
  let base := Path.base path
  let ext := Path.extension path
  if base.endsWith ext then base.take (base.length - ext.length) else base

/-- Compiles a program, to text or with a compiler to an executable. -/
def buildProgram (programs : Programs) (r : Request) : Act Unit := do
  let (p, path, _) ← loadProgram r
  match Code.compile p with
  | .error e => Act.exit ("Error compiling: " ++ e.message)
  | .ok m =>
    let output := r.given.text "output"
    if r.given.isOn "emit-llvm" then
      if output.isEmpty || output = "-" then Act.say m.text else writeFile output m.text
    else
      let target := if output.isEmpty then executableName path else output
      let compiler := r.given.textOr "cc" defaultCompiler
      match startCompiler programs (← Act.workspace) compiler with
      | none => Act.sayLine ("Built " ++ target)
      | some fault =>
        Act.note "stderr: \n"
        Act.exit ("Error building " ++ target ++ ": " ++ fault.message)

end TinyLang.Command
