import TinyLang.Proofs.Machine.Trail
import TinyLang.Proofs.Text.Lines

/-!
# Machines that can always write

If there is no bound on the output, no write fails. What a statement does then depends on the
variables, the labels and the number on the next line of input, and on nothing else: not on what has
been written before, not on the trace, and not on the prompt.

* `Machine.exec_input`: what a statement that reads input does.
* `Machine.exec_remaining`: what is left of the input after a statement.
* `Trail.output`: what a run writes, statement by statement.
* `Machine.InStep`: two machines that differ in nothing that a statement depends on, as far as the
  first lines of input go. `Trail.inStep` runs them side by side.
-/

namespace TinyLang

/-- The number on a line of a text, counted from 0, white space around it aside. -/
def Text.numberOn? (t : Text) (k : Nat) : Option Number :=
  t.physicalLines[k]?.bind fun line => Number.read? line.trim

/-- Whether a statement reads input. -/
def Stmt.isInput (s : Stmt) : Bool :=
  match s.action with
  | .input _ => true
  | _ => false

/-- The lines that a statement takes from the input. -/
def Stmt.takes (s : Stmt) : Nat := if s.isInput then 1 else 0

namespace Machine

/-! ## One statement -/

/-- A read takes the first line, whatever is on it. -/
theorem readNumber_eq (m : Machine) (line : Int) :
    m.readNumber line = ({ m with input := m.input.dropLine },
      match m.input.numberOn? 0 with
      | some v => .ok v
      | none => .error (.failed ⟨line, .badInput⟩)) := by
  have hfirst : m.input.numberOn? 0 =
      (m.input.takeLine?.map fun taken => taken.1.trim).bind Number.read? := by
    rw [(Text.takeLine?_eq m.input).1, Option.bind_map, List.head?_eq_getElem?]
    rfl
  unfold readNumber
  rw [hfirst, Text.dropLine]
  cases m.input.takeLine? <;> rfl

/-- **What a statement that reads input does**, if the prompt can be written. -/
theorem exec_input {m : Machine} (hroom : m.output.room = none) (conf : Settings) (line : Int)
    (target : Text) :
    ∃ o : Output, m.exec conf ⟨line, .input target⟩ =
      match m.input.numberOn? 0 with
      | some v => (({ m with output := o, input := m.input.dropLine } : Machine).set target v,
          .ok .next)
      | none => ({ m with output := o, input := m.input.dropLine },
          .error (.failed ⟨line, .badInput⟩)) := by
  obtain ⟨o, -, -, hask⟩ := ask_unbounded conf.prompt hroom
  refine ⟨o, ?_⟩
  simp only [exec, perform_input, hask, readNumber_eq]
  cases m.input.numberOn? 0 <;> rfl

theorem exec_print {m : Machine} (hroom : m.output.room = none) (conf : Settings) (line : Int)
    (items : List PrintItem) :
    m.exec conf ⟨line, .print items⟩ =
      match m.printed line items with
      | .ok text => ({ m with output := m.output.write text }, .ok .next)
      | .error stop => (m, .error stop) := by
  simp only [exec, perform_print]
  cases m.printed line items with
  | error stop => rfl
  | ok text => simp [write, Output.fits, hroom]

/-- **Only a statement that reads input takes some**, and it takes one line. -/
theorem exec_remaining {m : Machine} (hroom : m.output.room = none) (conf : Settings) (s : Stmt) :
    (m.exec conf s).1.input = Text.dropLine^[s.takes] m.input := by
  obtain ⟨line, action⟩ := s
  cases action with
  | assign target e =>
    simp only [exec, perform_assign]
    cases e.eval m.vars line <;> rfl
  | branch c label =>
    simp only [exec, perform_branch]
    cases c.eval m.vars line with
    | error stop => rfl
    | ok v =>
      dsimp only
      split
      · cases m.labels.find? label <;> rfl
      · rfl
  | print items =>
    rw [exec_print hroom]
    cases m.printed line items <;> rfl
  | input target =>
    obtain ⟨o, hexec⟩ := exec_input hroom conf line target
    rw [hexec]
    cases m.input.numberOn? 0 <;> rfl

/-! ## Two machines side by side -/

/-- The machines have the same variables, labels and number of statements started, both can always
write, and the first lines of their inputs are the same. -/
structure InStep (lines : Nat) (m m' : Machine) : Prop where
  vars : m'.vars = m.vars
  labels : m'.labels = m.labels
  steps : m'.steps = m.steps
  room : m.output.room = none
  room' : m'.output.room = none
  input : m'.input.physicalLines.take lines = m.input.physicalLines.take lines

namespace InStep

variable {m m' : Machine} {n : Nat}

theorem begin (h : InStep n m m') (conf conf' : Settings) (s : Stmt) :
    InStep n (m.begin conf s) (m'.begin conf' s) :=
  ⟨h.vars, h.labels, congrArg (· + 1) h.steps, h.room, h.room', h.input⟩

theorem arrive (h : InStep n m m') {conf conf' : Settings} (hlimit : conf'.limit = conf.limit)
    (p : Program) (line : Int) : m'.arrive conf' p line = m.arrive conf p line := by
  unfold Machine.arrive atLimit
  rw [hlimit, h.steps]

/-- The same number is on the next line. -/
theorem numberOn? (h : InStep (n + 1) m m') : m'.input.numberOn? 0 = m.input.numberOn? 0 := by
  have hfirst := congrArg (fun lines => lines[0]?) h.input
  simp only [List.getElem?_take_of_lt (Nat.succ_pos n)] at hfirst
  unfold Text.numberOn?
  rw [hfirst]

/-- The lines behind the next line are the same, but one fewer of them. -/
theorem dropLine (h : InStep (n + 1) m m') :
    m'.input.dropLine.physicalLines.take n = m.input.dropLine.physicalLines.take n := by
  have htail := congrArg (List.drop 1) h.input
  rw [List.drop_take, List.drop_take, List.drop_one, List.drop_one] at htail
  rw [(Text.takeLine?_eq m.input).2, (Text.takeLine?_eq m'.input).2]
  exact htail

/-- A statement has the same result in machines that are in step, and gives the variables the same
values. -/
theorem exec_result {s : Stmt} (h : InStep (n + s.takes) m m') (conf conf' : Settings) :
    (m'.exec conf' s).1.vars = (m.exec conf s).1.vars ∧
      (m'.exec conf' s).2 = (m.exec conf s).2 := by
  obtain ⟨line, action⟩ := s
  cases action with
  | assign target e =>
    simp only [Machine.exec, perform_assign, h.vars]
    cases e.eval m.vars line <;> simp [set, h.vars]
  | branch c label =>
    simp only [Machine.exec, perform_branch, h.vars, h.labels]
    cases c.eval m.vars line with
    | error stop => exact ⟨h.vars, rfl⟩
    | ok v =>
      dsimp only
      split
      · cases m.labels.find? label <;> exact ⟨h.vars, rfl⟩
      · exact ⟨h.vars, rfl⟩
  | print items =>
    have hprinted : m'.printed line items = m.printed line items := by
      unfold printed
      rw [h.vars]
    rw [exec_print h.room, exec_print h.room', hprinted]
    cases m.printed line items <;> exact ⟨h.vars, rfl⟩
  | input target =>
    obtain ⟨o, hexec⟩ := exec_input h.room conf line target
    obtain ⟨o', hexec'⟩ := exec_input h.room' conf' line target
    rw [hexec, hexec', h.numberOn?]
    cases m.input.numberOn? 0 <;> simp [set, h.vars]

/-- **Machines that are in step stay so**, whatever the settings. -/
theorem exec {s : Stmt} (h : InStep (n + s.takes) m m') (conf conf' : Settings) :
    InStep n (m.exec conf s).1 (m'.exec conf' s).1 := by
  have heffect := m.exec_effect conf s
  have heffect' := m'.exec_effect conf' s
  refine ⟨(h.exec_result conf conf').1, ?_, ?_, (exec_output conf h.room s).1,
    (exec_output conf' h.room' s).1, ?_⟩
  · rw [heffect.labels, heffect'.labels, h.labels]
  · rw [heffect.steps, heffect'.steps, h.steps]
  · rw [exec_remaining h.room, exec_remaining h.room']
    by_cases hs : s.isInput
    · have htakes : s.takes = 1 := if_pos hs
      rw [htakes] at h ⊢
      exact h.dropLine
    · have htakes : s.takes = 0 := if_neg hs
      rw [htakes] at h ⊢
      exact h.input

end InStep

end Machine

/-! ## Along a run -/

/-- The number of lines that executions take from the input. -/
def linesTaken (log : List Execution) : Nat := (log.filter fun x => x.stmt.isInput).length

theorem linesTaken_append (log log' : List Execution) :
    linesTaken (log ++ log') = linesTaken log + linesTaken log' := by
  unfold linesTaken
  rw [List.filter_append, List.length_append]

theorem linesTaken_singleton (x : Execution) : linesTaken [x] = x.stmt.takes := by
  unfold linesTaken Stmt.takes
  by_cases hx : x.stmt.isInput <;> simp [hx]

theorem linesTaken_cons (x : Execution) (log : List Execution) :
    linesTaken (x :: log) = x.stmt.takes + linesTaken log := by
  rw [← linesTaken_singleton, ← linesTaken_append, List.singleton_append]

/-- What is seen of a statement that is executed: the statement, and the variables. -/
def Execution.seen (x : Execution) : Stmt × Table Number := (x.stmt, x.machine.vars)

theorem linesTaken_seen {log log' : List Execution}
    (h : log'.map Execution.seen = log.map Execution.seen) : linesTaken log' = linesTaken log := by
  have hcount := congrArg (fun seen => (seen.filter fun x => x.1.isInput).length) h
  simp only [List.filter_map, List.length_map] at hcount
  exact hcount

namespace Trail

variable {conf conf' : Settings} {p : Program} {fuel n : Nat} {line : Int} {m m' m₁ : Machine}
  {log : List Execution} {e : Ending}

/-- **What a run writes** is what its statements write, one after the other. -/
theorem output (h : Trail conf p fuel line m log m₁ e) (hroom : m.output.room = none) :
    m₁.output.room = none ∧ m₁.output.text =
      m.output.text ++ log.flatMap fun x => x.stmt.written conf.prompt x.machine.vars := by
  induction h with
  | ended h => exact ⟨hroom, by simp⟩
  | @stopped fuel n line m m' s stop ha hexec =>
    have hout := Machine.exec_output (m := m.begin conf s) conf hroom s
    rw [hexec] at hout
    exact ⟨hout.1, by simpa using hout.2⟩
  | @step fuel n line m m' m'' s flow log e ha hexec _ ih =>
    have hout := Machine.exec_output (m := m.begin conf s) conf hroom s
    rw [hexec] at hout
    obtain ⟨hroom', htext⟩ := ih hout.1
    refine ⟨hroom', ?_⟩
    rw [htext, hout.2, List.flatMap_cons, List.append_assoc, Machine.begin_output]

/-- **What a run leaves of the input** is what stands behind the lines that its statements take. -/
theorem remaining (h : Trail conf p fuel line m log m₁ e) (hroom : m.output.room = none) :
    m₁.input = Text.dropLine^[linesTaken log] m.input := by
  induction h with
  | ended h => rfl
  | @stopped fuel n line m m' s stop ha hexec =>
    have hleft := Machine.exec_remaining (m := m.begin conf s) hroom conf s
    rw [hexec] at hleft
    rw [linesTaken_singleton]
    exact hleft
  | @step fuel n line m m' m'' s flow log e ha hexec _ ih =>
    have hout := Machine.exec_output (m := m.begin conf s) conf hroom s
    have hleft := Machine.exec_remaining (m := m.begin conf s) hroom conf s
    rw [hexec] at hout hleft
    rw [ih hout.1, hleft, ← Function.iterate_add_apply, linesTaken_cons, Nat.add_comm,
      Machine.begin_input]

/-- **Two runs side by side**, with other settings but the same limit: if the machines are in step
for the lines that the first run takes, the second run sees the same statements with the same
variables, ends in the same way, and leaves the machines in step. -/
theorem inStep (h : Trail conf p fuel line m log m₁ e) (hlimit : conf'.limit = conf.limit)
    (hm : Machine.InStep (n + linesTaken log) m m') :
    ∃ log' m₁', Trail conf' p fuel line m' log' m₁' e ∧ Machine.InStep n m₁ m₁' ∧
      log'.map Execution.seen = log.map Execution.seen := by
  induction h generalizing m' with
  | @ended fuel line m e h =>
    have harrive := hm.arrive hlimit p line
    refine ⟨[], m', .ended ?_, hm, rfl⟩
    cases h with
    | finished ha => exact .finished (harrive.trans ha)
    | cut ha => exact hlimit ▸ .cut (harrive.trans ha)
    | unfinished hfuel ha => exact .unfinished hfuel (harrive.trans ha)
  | @stopped fuel k line m m₁ s stop ha hexec =>
    rw [linesTaken_singleton] at hm
    have hbegin := hm.begin conf conf' s
    have hresult := (hbegin.exec_result conf conf').2
    have hafter := hbegin.exec conf conf'
    rw [hexec] at hresult hafter
    exact ⟨_, _, .stopped ((hm.arrive hlimit p line).trans ha) (Prod.ext rfl hresult), hafter,
      by simp [Execution.seen, hm.vars]⟩
  | @step fuel k line m m₂ m₁ s flow log e ha hexec _ ih =>
    rw [linesTaken_cons, Nat.add_left_comm, Nat.add_comm] at hm
    have hbegin := hm.begin conf conf' s
    have hresult := (hbegin.exec_result conf conf').2
    have hafter := hbegin.exec conf conf'
    rw [hexec] at hresult hafter
    obtain ⟨log', m₁', htrail, hend, hseen⟩ := ih hafter
    exact ⟨_, m₁', .step ((hm.arrive hlimit p line).trans ha) (Prod.ext rfl hresult) htrail, hend,
      by simp [Execution.seen, hm.vars, hseen]⟩

end Trail

end TinyLang
