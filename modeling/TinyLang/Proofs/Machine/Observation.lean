import TinyLang.Proofs.Machine.Unbounded
import TinyLang.Proofs.Program.Source

/-!
# Tracing and prompting only observe

Two runs of a program that differ in the prompt and in whether statements are traced start the same
statements with the same variables. So they come to the same end, and what they write differs in the
prompts only.

* `Stmt.written_eq`: where the prompt stands in what a statement writes.
* `Program.load_text`, `Machine.traceText_countLines`: the texts of statements have no newlines, so
  a trace has a line for each statement.
* `tracing_and_prompts_only_observe`: the headline, for two runs.
-/

namespace TinyLang

/-- A statement writes the prompt before anything else if it reads input, and the lines that it
completes. -/
theorem Stmt.written_eq (prompt : Text) (vars : Table Number) (s : Stmt) :
    s.written prompt vars =
      (if s.isInput then prompt else []) ++ (s.printedLines vars).flatMap Item.line := by
  obtain ⟨line, action⟩ := s
  cases action <;> simp [Stmt.written, Stmt.isInput, Stmt.printedLines]

/-! ## Traces -/

/-- The text of a statement of a loaded program has no newline in it. -/
theorem Program.load_text {name src : Text} {p : Program} (h : Program.load name src = .ok p)
    {line : Int} {s : Stmt} (hs : p.stmt? line = some s) : Text.byte '\n' ∉ s.text := by
  obtain ⟨ws, hws, hread⟩ := Program.load_words h hs
  obtain ⟨first, rest, htext, hwords, -, -⟩ := Stmt.exists_spells hws hread
  rw [htext]
  exact Tidy.no_newline ⟨first :: rest, hwords, rfl⟩

/-- A trace without colours has a line for each text in it, if the texts have no newlines. -/
theorem Machine.traceText_countLines {m : Machine} (h : ∀ t ∈ m.trace, Text.byte '\n' ∉ t) :
    (m.traceText false).countLines = m.trace.length := by
  have hlines : ∀ t ∈ m.trace.reverse.map fun t => ("Doing: " : Text) ++ t,
      Text.byte '\n' ∉ t := by
    intro t ht
    obtain ⟨t, hmem, rfl⟩ := List.mem_map.mp ht
    rw [List.mem_append, not_or]
    exact ⟨by decide, h t (List.mem_reverse.mp hmem)⟩
  have hphysical := Text.physicalLines_flatMap hlines
  rw [List.flatMap_map] at hphysical
  unfold Text.countLines
  show (Text.physicalLines (m.trace.reverse.flatMap _)).length = _
  rw [show Machine.traceLine false = fun t => ("Doing: " : Text) ++ t ++ ("\n" : Text) from rfl,
    hphysical, List.length_map, List.length_reverse]

/-! ## Runs -/

/-- What a machine has recorded of the statements started in it, each with the variables as they
were: their number, what they wrote with the prompts, and the trace if there is one. -/
structure Machine.Records (conf : Settings) (started : List (Stmt × Table Number)) (m : Machine) :
    Prop where
  steps : m.steps = started.length
  output : m.output.text = started.flatMap fun (s, vars) =>
    (if s.isInput then conf.prompt else []) ++ (s.printedLines vars).flatMap Item.line
  traced : conf.tracing = true →
    (m.traceText false = started.flatMap fun (s, _) =>
      ("Doing: " : Text) ++ s.text ++ ("\n" : Text)) ∧
    (m.traceText false).countLines = m.steps
  untraced : conf.tracing = false → m.traceText false = []

/-- A run of a loaded program records the statements that it starts. -/
theorem Trail.records {name src : Text} {p : Program} (hload : Program.load name src = .ok p)
    {conf : Settings} {stdin : Text} {fuel : Nat} {line : Int} {log : List Execution} {m : Machine}
    {e : Ending} (h : Trail conf p fuel line (.start p stdin none) log m e) :
    m.Records conf (log.map Execution.seen) := by
  have hsteps : m.steps = log.length := by simpa [Machine.start] using h.steps
  have htrace := h.trace
  refine ⟨by simpa using hsteps, ?_, fun ht => ?_, fun ht => ?_⟩
  · rw [(h.output rfl).2, List.flatMap_map]
    simp only [Stmt.written_eq, Execution.seen]
    rfl
  · rw [if_pos ht] at htrace
    have htexts : m.trace.reverse = log.map fun x => x.stmt.text := by simp [htrace, Machine.start]
    have hnewline : ∀ t ∈ m.trace, Text.byte '\n' ∉ t := by
      intro t hmem
      rw [← List.mem_reverse, htexts, List.mem_map] at hmem
      obtain ⟨x, hx, rfl⟩ := hmem
      obtain ⟨n, hn⟩ := h.exists_line x hx
      exact Program.load_text hload hn
    constructor
    · rw [Machine.traceText, htexts, List.flatMap_map, List.flatMap_map]
      rfl
    · rw [Machine.traceText_countLines hnewline, ← List.length_reverse, htexts, List.length_map,
        hsteps]
  · have hempty : m.trace = [] := by simpa [ht, Machine.start] using htrace
    rw [Machine.traceText, hempty]
    rfl

/-- **Tracing and prompting only observe.** Let a loaded program run twice on the same input, with
the same limit and without a bound on the output, but with any prompts, and traced or not. The runs
end with the same variables, the same number of statements started, in the same way, and with the
same input left to read. They start the same statements with the same variables, and each records
them: what it writes is what they print one after the other, with its prompt in the place of each
one that reads input, and its trace, if there is one, has a line for each. -/
theorem tracing_and_prompts_only_observe {name src : Text} {p : Program}
    (hload : Program.load name src = .ok p) (conf conf' : Settings)
    (hlimit : conf'.limit = conf.limit) (stdin : Text) (fuel : Nat) :
    let start := Machine.start p stdin none
    let r := Machine.run conf p fuel 1 start
    let r' := Machine.run conf' p fuel 1 start
    let started := (start.executions conf p fuel 1).map Execution.seen
    (r'.1.vars = r.1.vars ∧ r'.1.steps = r.1.steps ∧ r'.2 = r.2 ∧ r'.1.input = r.1.input) ∧
      (start.executions conf' p fuel 1).map Execution.seen = started ∧
      r.1.Records conf started ∧ r'.1.Records conf' started := by
  intro start r r' started
  have htrail := start.run_trail conf p fuel 1
  have htrail' := start.run_trail conf' p fuel 1
  have hstart : ∀ n, Machine.InStep n start start := fun n => ⟨rfl, rfl, rfl, rfl, rfl, rfl⟩
  obtain ⟨log', m', hsame, hinStep, hseen⟩ := htrail.inStep hlimit (hstart (0 + _))
  obtain ⟨hlog, hrun⟩ := hsame.eq
  have hrun : r' = (m', r.2) := hrun
  rw [← hlog] at hseen
  have hrecords := htrail'.records hload
  rw [hseen] at hrecords
  refine ⟨⟨?_, ?_, ?_, ?_⟩, hseen, htrail.records hload, hrecords⟩
  · rw [hrun]
    exact hinStep.vars
  · rw [hrun]
    exact hinStep.steps
  · rw [hrun]
  · -- the same statements take the same lines
    rw [htrail.remaining rfl, htrail'.remaining rfl, linesTaken_seen hseen]

/-- A program that stops at its second line of input: with a prompt and traced, and without
either. -/
theorem tracing_and_prompts_only_observe_bad_input :
    ∃ p, Program.load "twice" "input x\nprint \"read\"\n\ninput y\nprint x + y\n" = .ok p ∧
      let conf : Settings := { prompt := "? ", tracing := true }
      let start := Machine.start p "1\nlast" none
      let r := Machine.run conf p 9 1 start
      let r' := Machine.run {} p 9 1 start
      let started := (start.executions conf p 9 1).map Execution.seen
      r.2 = .stopped (.failed ⟨4, .badInput⟩) ∧ r'.2 = r.2 ∧ r'.1.vars = r.1.vars ∧
        r.1.Records conf started ∧ r'.1.Records {} started ∧
        r.1.output.text = "? read \n? " ∧ r'.1.output.text = "read \n" ∧
        r.1.traceText false = "Doing: input x\nDoing: print \"read\"\nDoing: input y\n" := by
  let p : Program := ⟨"twice", #[⟨none, some ⟨1, .input "x"⟩⟩,
    ⟨none, some ⟨2, .print [.literal "read"]⟩⟩, ⟨none, none⟩, ⟨none, some ⟨4, .input "y"⟩⟩,
    ⟨none, some ⟨5, .print [.value (.binary .add (.var "x") (.var "y"))]⟩⟩]⟩
  have hload : Program.load "twice" "input x\nprint \"read\"\n\ninput y\nprint x + y\n" = .ok p :=
    rfl
  obtain ⟨⟨hvars, -, hending, -⟩, -, hrecords, hrecords'⟩ :=
    tracing_and_prompts_only_observe hload { prompt := "? ", tracing := true } {} rfl "1\nlast" 9
  exact ⟨p, hload, by decide +kernel, hending, hvars, hrecords, hrecords', by decide +kernel,
    by decide +kernel, by decide +kernel⟩

end TinyLang
