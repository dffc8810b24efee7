import TinyLang.Proofs.Machine.Session
import TinyLang.Proofs.Machine.Unbounded

/-!
# Sessions take their input line by line

A session answers request after request with one machine. The statements that it executes, in its
runs and one at a time, share the input: each one that reads input takes the next line, also if
there is no number on it, and nothing else takes any.

* `InTurn`: a list of executions that take their lines one after the other. A run is one
  (`Trail.inTurn`), and so is a session (`Machine.session_inTurn`).
* `Machine.Alike`: two machines that differ in nothing but the input behind the next lines. They
  give the same answers as long as these lines last (`Alike.session`).
* `inputs_take_lines_in_order`: the headline.
-/

namespace TinyLang

variable {conf : Settings} {p : Program} {fuel : Nat}

/-! ## Taking lines in turn -/

section Lines

/-- Without its first lines, a text has the other ones. -/
theorem Text.physicalLines_dropLine (t : Text) (k : Nat) :
    (Text.dropLine^[k] t).physicalLines = t.physicalLines.drop k := by
  induction k generalizing t with
  | zero => rfl
  | succ k ih =>
    rw [Function.iterate_succ_apply, ih, (Text.takeLine?_eq t).2, List.drop_tail]

theorem Text.numberOn?_dropLine (t : Text) (k : Nat) :
    (Text.dropLine^[k] t).numberOn? 0 = t.numberOn? k := by
  rw [Text.numberOn?, Text.physicalLines_dropLine, List.getElem?_drop, Nat.add_zero, Text.numberOn?]

/-- Executions of statements that share an input: each is in a machine that has what those before
it have left, and that can always write. -/
inductive InTurn : Text → List Execution → Prop
  | nil {input : Text} : InTurn input []
  | cons {input : Text} {x : Execution} {log : List Execution} (hinput : x.machine.input = input)
      (hroom : x.machine.output.room = none)
      (rest : InTurn (Text.dropLine^[x.stmt.takes] input) log) : InTurn input (x :: log)

namespace InTurn

variable {input : Text} {log log' : List Execution}

theorem append (h : InTurn input log) (h' : InTurn (Text.dropLine^[linesTaken log] input) log') :
    InTurn input (log ++ log') := by
  induction h with
  | nil => exact h'
  | cons hinput hroom _ ih =>
    refine .cons hinput hroom (ih ?_)
    rwa [← Function.iterate_add_apply, Nat.add_comm, ← linesTaken_cons]

/-- **The `k`-th statement that reads input is left all but the first `k` lines.** -/
theorem getElem? (h : InTurn input log) {k : Nat} {x : Execution}
    (hx : (log.filter fun x => x.stmt.isInput)[k]? = some x) :
    x.machine.input = Text.dropLine^[k] input ∧ x.machine.output.room = none := by
  induction h generalizing k with
  | nil => cases hx
  | @cons input y log hinput hroom _ ih =>
    by_cases hy : y.stmt.isInput
    · rw [List.filter_cons, if_pos hy] at hx
      cases k with
      | zero =>
        cases hx
        exact ⟨hinput, hroom⟩
      | succ k =>
        have htakes : y.stmt.takes = 1 := if_pos hy
        have := ih hx
        rwa [htakes, ← Function.iterate_add_apply] at this
    · rw [List.filter_cons, if_neg hy] at hx
      have htakes : y.stmt.takes = 0 := if_neg hy
      have := ih hx
      rwa [htakes] at this

end InTurn

end Lines

/-- The statements of a run take their lines in turn. -/
theorem Trail.inTurn {line : Int} {m m' : Machine} {log : List Execution} {e : Ending}
    (h : Trail conf p fuel line m log m' e) (hroom : m.output.room = none) :
    InTurn m.input log := by
  induction h with
  | ended h => exact .nil
  | stopped ha hexec => exact .cons rfl hroom .nil
  | @step fuel n line m m' m'' s flow log e ha hexec _ ih =>
    have hout := Machine.exec_output (m := m.begin conf s) conf hroom s
    have hleft := Machine.exec_remaining (m := m.begin conf s) hroom conf s
    rw [hexec] at hout hleft
    have hrest := ih hout.1
    rw [hleft] at hrest
    exact .cons rfl hroom hrest

namespace Machine

variable (conf p fuel) in
/-- A request leaves the lines that its statements do not take. -/
theorem answer_inTurn {m : Machine} (hroom : m.output.room = none) (request : Request) :
    InTurn m.input (request.executions conf p fuel m) ∧
      (m.answer conf p fuel request).1.input =
        Text.dropLine^[linesTaken (request.executions conf p fuel m)] m.input ∧
      (m.answer conf p fuel request).1.output.room = none := by
  obtain rfl | ⟨s, hs⟩ | ⟨edit, look, hedit⟩ := answer_cases conf p fuel request
  · have htrail := m.run_trail conf p fuel 1
    exact ⟨htrail.inTurn hroom, htrail.remaining hroom, (htrail.output hroom).1⟩
  · rw [(hs m).1, (hs m).2, execReply_eq, linesTaken_singleton]
    exact ⟨.cons rfl hroom .nil, exec_remaining hroom conf s, (exec_output conf hroom s).1⟩
  · rw [(hedit m).1, (hedit m).2]
    cases edit <;> exact ⟨.nil, rfl, hroom⟩

variable (conf p fuel) in
/-- **The statements of a session take their lines in turn**, and nothing else takes any. -/
theorem session_inTurn {m : Machine} (hroom : m.output.room = none) (requests : List Request) :
    InTurn m.input (m.sessionLog conf p fuel requests) ∧
      (m.session conf p fuel requests).1.input =
        Text.dropLine^[linesTaken (m.sessionLog conf p fuel requests)] m.input := by
  induction requests generalizing m with
  | nil => exact ⟨.nil, rfl⟩
  | cons request requests ih =>
    obtain ⟨hturn, hleft, hroom'⟩ := answer_inTurn conf p fuel hroom request
    obtain ⟨hrest, hend⟩ := ih hroom'
    rw [hleft] at hrest hend
    refine ⟨hturn.append hrest, ?_⟩
    rw [sessionLog, linesTaken_append, Nat.add_comm, Function.iterate_add_apply]
    exact hend

/-! ## Two sessions -/

/-- The machines differ in nothing but the input, whose next lines are the same. -/
structure Alike (lines : Nat) (m m' : Machine) : Prop extends InStep lines m m' where
  text : m'.output.text = m.output.text
  trace : m'.trace = m.trace

namespace Alike

variable {m m' : Machine} {n : Nat}

variable (conf) in
theorem exec {s : Stmt} (h : Alike (n + s.takes) m m') :
    Alike n (m.exec conf s).1 (m'.exec conf s).1 ∧ (m'.exec conf s).2 = (m.exec conf s).2 := by
  refine ⟨⟨h.toInStep.exec conf conf, ?_, ?_⟩, (h.exec_result conf conf).2⟩
  · rw [(exec_output conf h.room s).2, (exec_output conf h.room' s).2, h.text, h.vars]
  · rw [(m.exec_effect conf s).trace, (m'.exec_effect conf s).trace, h.trace]

theorem execReply {s : Stmt} (h : Alike (n + s.takes) m m') :
    Alike n (m.execReply conf s).1 (m'.execReply conf s).1 ∧
      (m'.execReply conf s).2 = (m.execReply conf s).2 := by
  obtain ⟨hexec, hresult⟩ := h.exec conf
  rw [execReply_eq, execReply_eq, hresult]
  exact ⟨hexec, rfl⟩

theorem edit (h : Alike n m m') (edit : Edit) : Alike n (edit.apply m) (edit.apply m') := by
  cases edit with
  | keep => exact h
  | assign name v =>
    have hvars := congrArg (·.insert name v) h.vars
    exact ⟨⟨hvars, h.labels, h.steps, h.room, h.room', h.input⟩, h.text, h.trace⟩
  | define name line =>
    have hlabels := congrArg (·.insert name line) h.labels
    exact ⟨⟨h.vars, hlabels, h.steps, h.room, h.room', h.input⟩, h.text, h.trace⟩

/-- Runs of alike machines, as far as the lines last. -/
theorem run {line : Int} (h : Alike (n + linesTaken (m.executions conf p fuel line)) m m') :
    Alike n (m.run conf p fuel line).1 (m'.run conf p fuel line).1 ∧
      (m'.run conf p fuel line).2 = (m.run conf p fuel line).2 := by
  have htrail := m.run_trail conf p fuel line
  obtain ⟨log', m₁', htrail', hinStep, hseen⟩ := htrail.inStep rfl h.toInStep
  rw [htrail'.eq.2]
  refine ⟨⟨hinStep, ?_, ?_⟩, rfl⟩
  · have hwritten := congrArg (List.flatMap fun seen => seen.1.written conf.prompt seen.2) hseen
    rw [List.flatMap_map, List.flatMap_map] at hwritten
    rw [(htrail.output h.room).2, (htrail'.output h.room').2, h.text]
    exact congrArg _ hwritten
  · have htexts := congrArg (List.map fun seen => seen.1.text) hseen
    rw [List.map_map, List.map_map] at htexts
    rw [htrail.trace, htrail'.trace, h.trace]
    exact congrArg (fun texts => (if conf.tracing then texts.reverse else []) ++ m.trace) htexts

/-- Requests to alike machines, as far as the lines last. -/
theorem answer {request : Request}
    (h : Alike (n + linesTaken (request.executions conf p fuel m)) m m') :
    Alike n (m.answer conf p fuel request).1 (m'.answer conf p fuel request).1 ∧
      (m'.answer conf p fuel request).2 = (m.answer conf p fuel request).2 := by
  obtain rfl | ⟨s, hs⟩ | ⟨edit, look, hedit⟩ := answer_cases conf p fuel request
  · obtain ⟨hend, hending⟩ := h.run
    exact ⟨hend, congrArg Reply.ended hending⟩
  · rw [(hs m).1, linesTaken_singleton] at h
    rw [(hs m).2, (hs m').2]
    exact h.execReply
  · rw [(hedit m).1] at h
    rw [(hedit m).2, (hedit m').2, h.vars, h.labels]
    exact ⟨h.edit edit, rfl⟩

/-- **Sessions of alike machines**, as far as the lines last, give the same answers and leave the
machines alike. -/
theorem session {requests : List Request}
    (h : Alike (n + linesTaken (m.sessionLog conf p fuel requests)) m m') :
    Alike n (m.session conf p fuel requests).1 (m'.session conf p fuel requests).1 ∧
      (m'.session conf p fuel requests).2 = (m.session conf p fuel requests).2 := by
  induction requests generalizing m m' with
  | nil => exact ⟨h, rfl⟩
  | cons request requests ih =>
    rw [sessionLog, linesTaken_append, Nat.add_left_comm, Nat.add_comm] at h
    obtain ⟨hnext, hreply⟩ := h.answer
    obtain ⟨hend, hreplies⟩ := ih hnext
    exact ⟨hend, congrArg₂ List.cons hreply hreplies⟩

end Alike

end Machine

/-- **Each statement that reads input takes exactly one line, in order.** Let a session run a
program and execute statements, on any input and without a bound on the output. The `k`-th statement
that reads input gets the `k`-th line: it assigns the number on that line, white space around it
aside, or stops and leaves the variables as they are if there is no such line or no number on it.
The labels stay as they are in either case. The lines that are left in the end are those behind. So
a session on another input whose first lines are the same gives the same answers, if there are at
least as many of these lines as statements that read input. -/
theorem inputs_take_lines_in_order (conf : Settings) (p : Program) (fuel : Nat) (stdin : Text)
    (requests : List Request) :
    let start := Machine.start p stdin none
    let r := start.session conf p fuel requests
    let inputs := (start.sessionLog conf p fuel requests).filter fun x => x.stmt.isInput
    (∀ (k : Nat) (x : Execution) (target : Text),
      inputs[k]? = some x → x.stmt.action = .input target →
      match stdin.numberOn? k with
      | some v =>
        (x.outcome conf).2 = .ok .next ∧
          (x.outcome conf).1.vars = x.machine.vars.insert target v ∧
          (x.outcome conf).1.labels = x.machine.labels
      | none =>
        (x.outcome conf).2 = .error (.failed ⟨x.stmt.line, .badInput⟩) ∧
          (x.outcome conf).1.vars = x.machine.vars ∧
          (x.outcome conf).1.labels = x.machine.labels) ∧
    r.1.input.physicalLines = stdin.physicalLines.drop inputs.length ∧
    ∀ (k : Nat) (stdin' : Text), inputs.length ≤ k →
      stdin'.physicalLines.take k = stdin.physicalLines.take k →
      let r' := (Machine.start p stdin' none).session conf p fuel requests
      r'.2 = r.2 ∧ r'.1.vars = r.1.vars ∧ r'.1.labels = r.1.labels ∧ r'.1.steps = r.1.steps ∧
        r'.1.output.text = r.1.output.text ∧ r'.1.trace = r.1.trace := by
  intro start r inputs
  obtain ⟨hturn, hleft⟩ := Machine.session_inTurn (m := start) conf p fuel rfl requests
  have hcount : linesTaken (start.sessionLog conf p fuel requests) = inputs.length := rfl
  refine ⟨?_, ?_, ?_⟩
  · intro k x target hx haction
    obtain ⟨hinput, hroom⟩ := hturn.getElem? hx
    obtain ⟨⟨line, action⟩, m⟩ := x
    subst haction
    obtain ⟨o, hexec⟩ := Machine.exec_input hroom conf line target
    have hnumber : m.input.numberOn? 0 = stdin.numberOn? k := by
      rw [hinput]
      exact Text.numberOn?_dropLine stdin k
    simp only [Execution.outcome, hexec, hnumber]
    cases stdin.numberOn? k <;> exact ⟨rfl, rfl, rfl⟩
  · rw [hleft, Text.physicalLines_dropLine, hcount]
    rfl
  · intro k stdin' hk hlines
    have halike : Machine.Alike (k - inputs.length + inputs.length) start
        (.start p stdin' none) := by
      rw [Nat.sub_add_cancel hk]
      exact ⟨⟨rfl, rfl, rfl, rfl, rfl, hlines⟩, rfl, rfl⟩
    rw [← hcount] at halike
    obtain ⟨hend, hreplies⟩ := halike.session
    exact ⟨hreplies, hend.vars, hend.labels, hend.steps, hend.text, hend.trace⟩

/-- A run that reads two lines, a statement that finds no number on the third, and one that reads
the last line, which has no newline. Other lines behind these make no difference. -/
theorem inputs_take_lines_in_order_shared :
    ∃ p, Program.load "two" "input x\ninput y\n" = .ok p ∧
      let requests : List Request := [.run, .exec ["input", "z"] 9, .execLine 1]
      let start := Machine.start p "1\n 2 \nno\n4" none
      let r := start.session {} p 9 requests
      let inputs := (start.sessionLog {} p 9 requests).filter fun x => x.stmt.isInput
      inputs.length = 4 ∧
      (∃ x, inputs[2]? = some x ∧ x.stmt = ⟨9, .input "z"⟩ ∧
        (x.outcome {}).2 = .error (.failed ⟨9, .badInput⟩) ∧
          (x.outcome {}).1.vars = x.machine.vars ∧
          (x.outcome {}).1.labels = x.machine.labels) ∧
      r.2 = [.ended .finished, .stopped (.failed ⟨9, .badInput⟩), .went .next] ∧
      ((Machine.start p "1\n 2 \nno\n4\n5\n" none).session {} p 9 requests).2 = r.2 := by
  let p : Program := ⟨"two", #[⟨none, some ⟨1, .input "x"⟩⟩, ⟨none, some ⟨2, .input "y"⟩⟩]⟩
  let requests : List Request := [.run, .exec ["input", "z"] 9, .execLine 1]
  obtain ⟨htakes, -, hsame⟩ := inputs_take_lines_in_order {} p 9 "1\n 2 \nno\n4" requests
  have hthird : (((Machine.start p "1\n 2 \nno\n4" none).sessionLog {} p 9 requests).filter
      fun x => x.stmt.isInput)[2]?.map Execution.stmt = some ⟨9, .input "z"⟩ := by decide +kernel
  obtain ⟨x, hx, hstmt⟩ := Option.map_eq_some_iff.mp hthird
  have hnumber : Text.numberOn? "1\n 2 \nno\n4" 2 = none := by decide +kernel
  have hbad := htakes 2 x "z" hx (by rw [hstmt])
  rw [hnumber, hstmt] at hbad
  exact ⟨p, rfl, by decide +kernel, ⟨x, hx, hstmt, hbad⟩, by decide +kernel,
    (hsame 4 "1\n 2 \nno\n4\n5\n" (by decide +kernel) (by decide +kernel)).1⟩

end TinyLang
