import TinyLang.Proofs.Machine.Limit

/-!
# The statements that a run starts

`Machine.run` says where a run ends. `Machine.executions` lists the statements that it starts on the
way, in order, each with the machine that it is executed in. `Trail` puts the two together as a
relation with one case for each way a run can go on or end, and facts about runs are proved by
induction on it.

* `Machine.run_trail`, `Trail.eq`: a trail is a run with its list of statements, and the only one.
* `Trail.steps`, `Trail.trace`: every statement of the list is counted, and traced if that is asked
  for.
* `Trail.length_le`: with a limit, there are no more of them than it still allows.
* `Trail.invariant`: what beginning and executing statements preserves holds all along.
* `Trail.last`: a run that stops does so at the last statement of the list.
-/

namespace TinyLang

/-- A statement, and the machine that it is executed in. -/
structure Execution where
  stmt : Stmt
  machine : Machine
deriving DecidableEq

/-- The machine after an execution, and what became of the statement. -/
def Execution.outcome (conf : Settings) (x : Execution) : Machine × Except Stop Flow :=
  x.machine.exec conf x.stmt

/-- The statements that a run starts, each in the machine that has counted and traced it. -/
def Machine.executions (conf : Settings) (p : Program) :
    (fuel : Nat) → (line : Int) → Machine → List Execution
  | fuel, line, m =>
    match m.arrive conf p line with
    | .pastEnd => []
    | .overLimit _ => []
    | .statement n s =>
      match fuel with
      | 0 => []
      | fuel + 1 =>
        ⟨s, m.begin conf s⟩ ::
          match (m.begin conf s).exec conf s with
          | (m', .ok flow) => executions conf p fuel (follow n flow) m'
          | (_, .error _) => []

/-- The statements that may still be started before a positive limit is reached. -/
def Machine.allowance (m : Machine) (conf : Settings) : Nat := (conf.limit - m.steps).toNat

/-- A run that starts no further statement, and how it ends there. -/
inductive Ends (conf : Settings) (p : Program) (fuel : Nat) (line : Int) (m : Machine) :
    Ending → Prop
  | finished (ha : m.arrive conf p line = .pastEnd) : Ends conf p fuel line m .finished
  | cut {n : Nat} (ha : m.arrive conf p line = .overLimit n) :
      Ends conf p fuel line m (.cut conf.limit n)
  | unfinished {n : Nat} {s : Stmt} (hfuel : fuel = 0)
      (ha : m.arrive conf p line = .statement n s) : Ends conf p fuel line m .unfinished

/-- A run with fuel from a line in a machine, with the statements that it starts, to the machine and
the ending that it comes to. -/
inductive Trail (conf : Settings) (p : Program) :
    Nat → Int → Machine → List Execution → Machine → Ending → Prop
  | ended {fuel : Nat} {line : Int} {m : Machine} {e : Ending} (h : Ends conf p fuel line m e) :
      Trail conf p fuel line m [] m e
  | stopped {fuel n : Nat} {line : Int} {m m' : Machine} {s : Stmt} {stop : Stop}
      (ha : m.arrive conf p line = .statement n s)
      (hexec : (m.begin conf s).exec conf s = (m', .error stop)) :
      Trail conf p (fuel + 1) line m [⟨s, m.begin conf s⟩] m' (.stopped stop)
  | step {fuel n : Nat} {line : Int} {m m' m'' : Machine} {s : Stmt} {flow : Flow}
      {log : List Execution} {e : Ending} (ha : m.arrive conf p line = .statement n s)
      (hexec : (m.begin conf s).exec conf s = (m', .ok flow))
      (rest : Trail conf p fuel (Machine.follow n flow) m' log m'' e) :
      Trail conf p (fuel + 1) line m (⟨s, m.begin conf s⟩ :: log) m'' e

variable {conf : Settings} {p : Program}

@[simp] theorem Machine.begin_vars (m : Machine) (s : Stmt) : (m.begin conf s).vars = m.vars := rfl

@[simp] theorem Machine.begin_input (m : Machine) (s : Stmt) :
    (m.begin conf s).input = m.input := rfl

@[simp] theorem Machine.begin_output (m : Machine) (s : Stmt) :
    (m.begin conf s).output = m.output := rfl

/-! ## Runs and trails -/

variable (conf p) in
/-- Every run is a trail. -/
theorem Machine.run_trail (fuel : Nat) (line : Int) (m : Machine) :
    Trail conf p fuel line m (m.executions conf p fuel line) (run conf p fuel line m).1
      (run conf p fuel line m).2 := by
  fun_induction run conf p fuel line m with
  | case1 fuel line m ha =>
    rw [executions, ha]
    exact .ended (.finished ha)
  | case2 fuel line m n ha =>
    rw [executions, ha]
    exact .ended (.cut ha)
  | case3 line m n s ha =>
    rw [executions, ha]
    exact .ended (.unfinished rfl ha)
  | case4 line m n s ha fuel m' flow hexec ih =>
    rw [executions, ha]
    simp only [hexec]
    exact .step ha hexec ih
  | case5 line m n s ha fuel m' stop hexec =>
    rw [executions, ha]
    simp only [hexec]
    exact .stopped ha hexec

namespace Trail

variable {fuel : Nat} {line : Int} {m m' : Machine} {log : List Execution} {e : Ending}

/-- A trail is the run from its line and machine. -/
theorem eq (h : Trail conf p fuel line m log m' e) :
    m.executions conf p fuel line = log ∧ Machine.run conf p fuel line m = (m', e) := by
  induction h with
  | ended h =>
    unfold Machine.executions Machine.run
    cases h with
    | finished ha => simp only [ha, and_self]
    | cut ha => simp only [ha, and_self]
    | unfinished hfuel ha => simp only [hfuel, ha, and_self]
  | stopped ha hexec => unfold Machine.executions Machine.run; simp only [ha, hexec, and_self]
  | step ha hexec _ ih =>
    unfold Machine.executions Machine.run
    simp only [ha, hexec, ih.1, ih.2, and_self]

/-! ## Along a trail -/

/-- **Every statement started is counted.** -/
theorem steps (h : Trail conf p fuel line m log m' e) : m'.steps = m.steps + log.length := by
  induction h with
  | ended h => rfl
  | stopped ha hexec => exact Machine.steps_statement hexec
  | step ha hexec _ ih =>
    have hcount := Machine.steps_statement hexec
    rw [ih, hcount, List.length_cons]
    omega

/-- **A limited run starts no more statements than its limit still allows.** -/
theorem length_le (h : Trail conf p fuel line m log m' e) (hpos : 0 < conf.limit) :
    log.length ≤ m.allowance conf := by
  have hwithin : ∀ {m : Machine} {line : Int} {n : Nat} {s : Stmt},
      m.arrive conf p line = .statement n s → m.steps < conf.limit := fun ha =>
    (Machine.atLimit_eq_false hpos).mp (Machine.arrive_eq_statement.mp ha).2
  unfold Machine.allowance
  induction h with
  | ended h => exact Nat.zero_le _
  | stopped ha hexec =>
    have hlimit := hwithin ha
    rw [List.length_singleton]
    omega
  | step ha hexec _ ih =>
    have hlimit := hwithin ha
    have hcount := Machine.steps_statement hexec
    rw [List.length_cons]
    omega

/-- **Every statement started is traced**, if statements are traced. -/
theorem trace (h : Trail conf p fuel line m log m' e) :
    m'.trace = (if conf.tracing then (log.map fun x => x.stmt.text).reverse else []) ++ m.trace := by
  induction h with
  | ended h => simp
  | @stopped fuel n line m m' s stop ha hexec =>
    have htrace := ((m.begin conf s).exec_effect conf s).trace
    rw [hexec] at htrace
    rw [htrace]
    unfold Machine.begin
    by_cases ht : conf.tracing <;> simp [ht]
  | @step fuel n line m m' m'' s flow log e ha hexec _ ih =>
    have htrace := ((m.begin conf s).exec_effect conf s).trace
    rw [hexec] at htrace
    rw [ih, htrace]
    unfold Machine.begin
    by_cases ht : conf.tracing <;> simp [ht]

/-- **What statements preserve holds all along a trail**: where a statement is executed, and at the
end. -/
theorem invariant {P : Machine → Prop} (hbegin : ∀ m s, P m → P (m.begin conf s))
    (hexec : ∀ m s, P m → P (m.exec conf s).1) (h : Trail conf p fuel line m log m' e) (hm : P m) :
    (∀ x ∈ log, P x.machine) ∧ P m' := by
  induction h with
  | ended h => exact ⟨nofun, hm⟩
  | @stopped fuel n line m m' s stop ha hx =>
    have hm' := hexec _ s (hbegin m s hm)
    rw [hx] at hm'
    exact ⟨by simpa using hbegin m s hm, hm'⟩
  | @step fuel n line m m' m'' s flow log e ha hx _ ih =>
    have hm' := hexec _ s (hbegin m s hm)
    rw [hx] at hm'
    obtain ⟨hlog, hend⟩ := ih hm'
    exact ⟨List.forall_mem_cons.mpr ⟨hbegin m s hm, hlog⟩, hend⟩

/-- The statements of a trail stand on lines of the program. -/
theorem exists_line (h : Trail conf p fuel line m log m' e) :
    ∀ x ∈ log, ∃ n : Nat, p.stmt? n = some x.stmt := by
  have hline : ∀ {line : Int} {m : Machine} {n : Nat} {s : Stmt},
      m.arrive conf p line = .statement n s → p.stmt? n = some s := by
    intro line m n s ha
    exact Program.stmt?_of_next? (Machine.arrive_eq_statement.mp ha).1
  induction h with
  | ended h => exact nofun
  | stopped ha hexec => simpa using ⟨_, hline ha⟩
  | step ha hexec _ ih => exact List.forall_mem_cons.mpr ⟨⟨_, hline ha⟩, ih⟩

/-- **A run that stops does so at the last statement it has started.** -/
theorem last {stop : Stop} (h : Trail conf p fuel line m log m' (.stopped stop)) :
    ∃ x, log.getLast? = some x ∧ x.outcome conf = (m', .error stop) := by
  generalize he : Ending.stopped stop = e at h
  induction h with
  | ended h =>
    subst he
    cases h
  | stopped ha hexec =>
    cases he
    exact ⟨_, rfl, hexec⟩
  | step ha hexec _ ih =>
    obtain ⟨x, hx, hout⟩ := ih he
    exact ⟨x, by rw [List.getLast?_cons, hx]; rfl, hout⟩

/-- A run that is cut has reached its limit. -/
theorem atLimit {limit line' : Int} (h : Trail conf p fuel line m log m' (.cut limit line')) :
    m'.atLimit conf = true := by
  generalize he : Ending.cut limit line' = e at h
  induction h with
  | ended h =>
    subst he
    cases h with
    | cut ha => exact (Machine.arrive_eq_overLimit.mp ha).choose_spec.2
  | stopped ha hexec => cases he
  | step ha hexec _ ih => exact ih he

end Trail

end TinyLang
