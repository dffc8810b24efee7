import TinyLang.Machine.Session
import TinyLang.Proofs.Machine.Trail
import TinyLang.Proofs.Program.Next
import TinyLang.Proofs.Table

/-!
# Sessions only move forward

A session answers requests in any order, and some of them fail midway. Whatever they are, names that
are defined stay defined, and statements that were started stay counted.

* `Session`: a session as a relation, with one case for each thing that can happen in it.
  `Machine.session` computes the one in which nothing but requests happens
  (`Machine.session_isSession`), and `Machine.sessionLog` lists the statements that it executes.
* `Machine.answer_cases`: what one request can do.
* `Machine.answer_forward`: nothing is taken back by it.
* `Machine.steps_answer`: requests other than runs start no counted statement.
* `Machine.steps_answer_le`: no request goes past the limit.
* `Machine.answer_run_atLimit`: at the limit, a run does nothing.
* `sessions_only_move_forward`: the headline, for all that follows in a session.
-/

namespace TinyLang

/-- A session, from a machine to the one that it leaves behind, with the requests and their replies
in order. A run may be looked at before it is over, since any fuel will do for it. Between requests a
caller may take away what was written and traced, and give new room. -/
inductive Session (conf : Settings) (p : Program) :
    Machine → List (Request × Reply) → Machine → Prop
  | done (m : Machine) : Session conf p m [] m
  | request {m m' m'' : Machine} {r : Request} {reply : Reply} {log : List (Request × Reply)}
      (fuel : Nat) (h : m.answer conf p fuel r = (m', reply)) (rest : Session conf p m' log m'') :
      Session conf p m ((r, reply) :: log) m''
  | clean {m m' : Machine} {log : List (Request × Reply)} (room : Option Nat)
      (rest : Session conf p (m.clean room) log m') : Session conf p m log m'

/-- The statements that a request executes. -/
def Request.executions (conf : Settings) (p : Program) (fuel : Nat) (m : Machine) :
    Request → List Execution
  | .run => m.executions conf p fuel 1
  | .exec words line =>
    match Stmt.ofWords words line with
    | .ok s => [⟨s, m⟩]
    | .error _ => []
  | .execLine line =>
    match p.stmt? line with
    | some s => [⟨s, m⟩]
    | none => []
  | _ => []

namespace Machine

/-- Answers requests one after the other. -/
def session (conf : Settings) (p : Program) (fuel : Nat) (m : Machine) :
    List Request → Machine × List Reply
  | [] => (m, [])
  | request :: requests =>
    let (m', reply) := m.answer conf p fuel request
    let (m'', replies) := m'.session conf p fuel requests
    (m'', reply :: replies)

/-- The statements that a session executes. -/
def sessionLog (conf : Settings) (p : Program) (fuel : Nat) (m : Machine) :
    List Request → List Execution
  | [] => []
  | request :: requests =>
    request.executions conf p fuel m ++
      (m.answer conf p fuel request).1.sessionLog conf p fuel requests

theorem session_isSession (conf : Settings) (p : Program) (fuel : Nat) (m : Machine)
    (requests : List Request) :
    Session conf p m (requests.zip (m.session conf p fuel requests).2)
      (m.session conf p fuel requests).1 := by
  induction requests generalizing m with
  | nil => exact .done m
  | cons request requests ih => exact .request fuel rfl (ih _)

/-! ## Requests -/

/-- What a request that executes no statement does to the names of a machine. -/
inductive Edit
  | keep
  | assign (name : Text) (v : Number)
  | define (name : Text) (line : Int)

/-- Applies an edit. -/
def Edit.apply (m : Machine) : Edit → Machine
  | keep => m
  | assign name v => m.set name v
  | define name line => { m with labels := m.labels.insert name line }

theorem execReply_eq (m : Machine) (conf : Settings) (s : Stmt) :
    m.execReply conf s = ((m.exec conf s).1, match (m.exec conf s).2 with
      | .ok flow => .went flow
      | .error stop => .stopped stop) := by
  unfold execReply
  rcases m.exec conf s with ⟨m', stop | flow⟩ <;> rfl

/-- **A request runs the program, executes one statement, or executes none.** In the last case it
looks at variables and labels only, and changes one of them at most. -/
theorem answer_cases (conf : Settings) (p : Program) (fuel : Nat) (request : Request) :
    request = .run ∨
    (∃ s, ∀ m : Machine, request.executions conf p fuel m = [⟨s, m⟩] ∧
      m.answer conf p fuel request = m.execReply conf s) ∨
    ∃ (edit : Edit) (look : Table Number → Table Int → Reply), ∀ m : Machine,
      request.executions conf p fuel m = [] ∧
      m.answer conf p fuel request = (edit.apply m, look m.vars m.labels) := by
  cases request with
  | run => exact .inl rfl
  | exec words line =>
    simp only [answer, Request.executions]
    cases Stmt.ofWords words line with
    | error d => exact .inr (.inr ⟨.keep, fun _ _ => .stopped (.failed d), fun m => ⟨rfl, rfl⟩⟩)
    | ok s => exact .inr (.inl ⟨s, fun m => ⟨rfl, rfl⟩⟩)
  | execLine line =>
    simp only [answer, Request.executions]
    cases p.stmt? line with
    | none => exact .inr (.inr ⟨.keep, fun _ _ => .done, fun m => ⟨rfl, rfl⟩⟩)
    | some s => exact .inr (.inl ⟨s, fun m => ⟨rfl, rfl⟩⟩)
  | eval words line =>
    simp only [answer]
    cases Expr.ofWords words with
    | error fault =>
      exact .inr (.inr ⟨.keep, fun _ _ => .stopped (.failed (fault.on line)), fun m => ⟨rfl, rfl⟩⟩)
    | ok e =>
      exact .inr (.inr ⟨.keep, fun vars _ => replyValue (e.eval vars line), fun m => ⟨rfl, rfl⟩⟩)
  | evalTree e line =>
    exact .inr (.inr ⟨.keep, fun vars _ => replyValue (e.eval vars line), fun m => ⟨rfl, rfl⟩⟩)
  | set name v => exact .inr (.inr ⟨.assign name v, fun _ _ => .done, fun m => ⟨rfl, rfl⟩⟩)
  | get name =>
    exact .inr (.inr ⟨.keep, fun vars _ => .looked (vars.find? name), fun m => ⟨rfl, rfl⟩⟩)
  | defineLabel name line =>
    exact .inr (.inr ⟨.define name line, fun _ _ => .done, fun m => ⟨rfl, rfl⟩⟩)
  | label name =>
    exact .inr (.inr ⟨.keep, fun _ labels => .located (labels.find? name), fun m => ⟨rfl, rfl⟩⟩)

/-! ## Moving forward -/

/-- What one machine has and another after it has as well: its names, and its statements. -/
structure Forward (m m' : Machine) : Prop where
  vars : ∀ name, m.vars.has name = true → m'.vars.has name = true
  labels : ∀ name, m.labels.has name = true → m'.labels.has name = true
  steps : m.steps ≤ m'.steps

theorem Forward.refl (m : Machine) : Forward m m := ⟨fun _ => id, fun _ => id, Nat.le_refl _⟩

theorem Forward.trans {m m' m'' : Machine} (h : Forward m m') (h' : Forward m' m'') :
    Forward m m'' :=
  ⟨fun name hn => h'.vars name (h.vars name hn), fun name hn => h'.labels name (h.labels name hn),
    Nat.le_trans h.steps h'.steps⟩

theorem forward_set (m : Machine) (name : Text) (v : Number) : Forward m (m.set name v) :=
  ⟨fun _ hn => Table.has_insert hn name v, fun _ => id, Nat.le_refl _⟩

theorem Frame.forward {m m' : Machine} (h : Frame m m') : Forward m m' :=
  ⟨fun _ hn => h.vars ▸ hn, fun _ hn => h.labels ▸ hn, Nat.le_of_eq h.steps.symm⟩

theorem Effect.forward {a : Action} {m m' : Machine} (h : Effect a m m') : Forward m m' := by
  cases h with
  | frame h => exact h.forward
  | set _ v h => exact h.forward.trans (forward_set _ _ v)

theorem forward_begin (m : Machine) (conf : Settings) (s : Stmt) : Forward m (m.begin conf s) :=
  ⟨fun _ => id, fun _ => id, Nat.le_succ _⟩

theorem forward_clean (m : Machine) (room : Option Nat) : Forward m (m.clean room) :=
  ⟨fun _ => id, fun _ => id, Nat.le_refl _⟩

variable {conf : Settings} {p : Program}

/-! ## Runs -/

theorem forward_statement {m m' : Machine} {s : Stmt} {result : Except Stop Flow}
    (h : (m.begin conf s).exec conf s = (m', result)) : Forward m m' := by
  have heffect := (m.begin conf s).exec_effect conf s
  rw [h] at heffect
  exact (forward_begin m conf s).trans heffect.forward

variable (conf p) in
theorem run_forward (fuel : Nat) (line : Int) (m : Machine) :
    Forward m (run conf p fuel line m).1 := by
  fun_induction run conf p fuel line m with
  | case1 fuel line m ha => exact .refl m
  | case2 fuel line m n ha => exact .refl m
  | case3 line m n s ha => exact .refl m
  | case4 line m n s ha fuel m' flow hexec ih => exact (forward_statement hexec).trans ih
  | case5 line m n s ha fuel m' stop hexec => exact forward_statement hexec

/-- **A run stays within the limit**, however long it is looked at. -/
theorem steps_run_le (hpos : 0 < conf.limit) (fuel : Nat) (line : Int) {m : Machine}
    (hm : m.steps ≤ conf.limit) : (run conf p fuel line m).1.steps ≤ conf.limit := by
  have htrail := run_trail conf p fuel line m
  have hsteps := htrail.steps
  have hlength := htrail.length_le hpos
  unfold allowance at hlength
  omega

/-- **At the limit a run does nothing**, and is cut at the first statement. -/
theorem answer_run_atLimit (hpos : 0 < conf.limit) {m : Machine} (hm : m.steps = conf.limit)
    {n : Nat} {s : Stmt} (hs : p.stmt? n = some s) (hfirst : ∀ k : Int, k < n → p.stmt? k = none)
    (fuel : Nat) : m.answer conf p fuel .run = (m, .ended (.cut conf.limit n)) := by
  have hn := (Program.stmt?_le_size hs).1
  have hnext : p.next? 1 = some (n, s) :=
    (p.next?_next 1).unique (.found (by omega) hs fun k _ hk => hfirst k (by omega))
  have hlimit : m.atLimit conf = true := atLimit_eq_true.mpr ⟨hpos, Int.le_of_eq hm.symm⟩
  have harrive : m.arrive conf p 1 = .overLimit n := arrive_eq_overLimit.mpr ⟨s, hnext, hlimit⟩
  rw [answer, run, harrive]

/-! ## No request takes anything back -/

theorem forward_edit (m : Machine) (edit : Edit) : Forward m (edit.apply m) := by
  cases edit with
  | keep => exact .refl m
  | assign name v => exact forward_set m name v
  | define name line => exact ⟨fun _ => id, fun _ hn => Table.has_insert hn name line, Nat.le_refl _⟩

theorem steps_edit (m : Machine) (edit : Edit) : (edit.apply m).steps = m.steps := by
  cases edit <;> rfl

variable (conf p) in
/-- **No request takes anything back.** -/
theorem answer_forward (fuel : Nat) (m : Machine) (r : Request) :
    Forward m (m.answer conf p fuel r).1 := by
  obtain rfl | ⟨s, hs⟩ | ⟨edit, look, hedit⟩ := answer_cases conf p fuel r
  · exact run_forward conf p fuel 1 m
  · rw [(hs m).2, execReply_eq]
    exact (m.exec_effect conf s).forward
  · rw [(hedit m).2]
    exact forward_edit m edit

variable (conf p) in
/-- **Only runs count statements.** -/
theorem steps_answer (fuel : Nat) (m : Machine) {r : Request} (hr : r ≠ .run) :
    (m.answer conf p fuel r).1.steps = m.steps := by
  obtain h | ⟨s, hs⟩ | ⟨edit, look, hedit⟩ := answer_cases conf p fuel r
  · exact absurd h hr
  · rw [(hs m).2, execReply_eq]
    exact (m.exec_effect conf s).steps
  · rw [(hedit m).2]
    exact steps_edit m edit

variable (p) in
/-- **No request goes past the limit.** -/
theorem steps_answer_le (hpos : 0 < conf.limit) (fuel : Nat) {m : Machine} (r : Request)
    (hm : m.steps ≤ conf.limit) : (m.answer conf p fuel r).1.steps ≤ conf.limit := by
  by_cases hr : r = .run
  · subst hr
    exact steps_run_le hpos fuel 1 hm
  · rwa [steps_answer conf p fuel m hr]

end Machine

/-! ## Sessions -/

namespace Session

variable {conf : Settings} {p : Program} {m m' : Machine} {log : List (Request × Reply)}

theorem forward (h : Session conf p m log m') : m.Forward m' := by
  induction h with
  | done m => exact .refl m
  | @request m _ _ r _ _ fuel h _ ih =>
    have hstep := m.answer_forward conf p fuel r
    rw [h] at hstep
    exact hstep.trans ih
  | clean room _ ih => exact (Machine.forward_clean _ room).trans ih

theorem steps_eq (h : Session conf p m log m') (hlog : ∀ e ∈ log, e.1 ≠ .run) :
    m'.steps = m.steps := by
  induction h with
  | done m => rfl
  | @request m _ _ r _ _ fuel h _ ih =>
    have hstep := m.steps_answer conf p fuel (hlog _ List.mem_cons_self)
    rw [h] at hstep
    rw [ih fun e he => hlog e (List.mem_cons_of_mem _ he), hstep]
  | clean room _ ih => exact ih hlog

theorem steps_le (h : Session conf p m log m') (hpos : 0 < conf.limit)
    (hm : m.steps ≤ conf.limit) : m'.steps ≤ conf.limit := by
  induction h with
  | done m => exact hm
  | @request m _ _ r _ _ fuel h _ ih =>
    have hstep := Machine.steps_answer_le p hpos fuel r hm
    rw [h] at hstep
    exact ih hstep
  | clean room _ ih => exact ih hm

end Session

/-- **Sessions only move forward.** Take a machine anywhere in a session that started with a program,
and any continuation of that session. Variables and labels that were defined still are. The statements
counted are no fewer, and just as many if the continuation has no runs. With a positive limit there are
never more of them than that. And once there are as many, every run of a program with statements, at
any time later and whatever became of the labels, leaves the machine as it is and is cut at the first
line that has a statement. -/
theorem sessions_only_move_forward (conf : Settings) (p : Program) (stdin : Text)
    (room : Option Nat) {before after : List (Request × Reply)} {m m' : Machine}
    (h : Session conf p (.start p stdin room) before m) (h' : Session conf p m after m') :
    (∀ name, m.vars.has name = true → m'.vars.has name = true) ∧
    (∀ name, m.labels.has name = true → m'.labels.has name = true) ∧
    m.steps ≤ m'.steps ∧
    ((∀ e ∈ after, e.1 ≠ .run) → m'.steps = m.steps) ∧
    (0 < conf.limit →
      m'.steps ≤ conf.limit ∧
      (m.steps = conf.limit → (∃ line s, p.stmt? line = some s) →
        ∃ (n : Nat) (s : Stmt), p.stmt? n = some s ∧ (∀ k : Int, k < n → p.stmt? k = none) ∧
          ∀ fuel, m'.answer conf p fuel .run = (m', .ended (.cut conf.limit n)))) := by
  have hforward := h'.forward
  refine ⟨hforward.vars, hforward.labels, hforward.steps, h'.steps_eq, fun hpos => ?_⟩
  have hm : m.steps ≤ conf.limit := h.steps_le hpos (Int.le_of_lt hpos)
  have hm' := h'.steps_le hpos hm
  refine ⟨hm', fun hreached ⟨line, s₀, hs₀⟩ => ?_⟩
  obtain ⟨n, s, hs, hfirst⟩ := Program.exists_first hs₀
  have hsteps := hforward.steps
  exact ⟨n, s, hs, hfirst, Machine.answer_run_atLimit hpos (by omega) hs hfirst⟩

/-- A loop with a limit of three: a run is cut, and another one after its label was moved does
nothing. The label and the variable set by hand are still defined. -/
theorem sessions_only_move_forward_loop :
    ∃ p m m', Program.load "loop" "\nloop: print x\nif 1 goto loop\n" = .ok p ∧
      Session { limit := 3 } p (.start p "" none)
        [(.set "x" ⟨0⟩, .done), (.run, .ended (.cut 3 3))] m ∧
      Session { limit := 3 } p m [(.defineLabel "loop" (-7), .done), (.get "y", .looked none)] m' ∧
      m'.vars.has "x" = true ∧ m'.labels.has "loop" = true ∧ m'.steps = (3 : Int) ∧
      ∀ fuel, m'.answer { limit := 3 } p fuel .run = (m', .ended (.cut 3 2)) := by
  let p : Program := ⟨"loop", #[⟨none, none⟩, ⟨some "loop", some ⟨2, .print [.value (.var "x")]⟩⟩,
    ⟨none, some ⟨3, .branch (.number "1") "loop"⟩⟩]⟩
  let conf : Settings := { limit := 3 }
  let m := (Machine.run conf p 3 1 ((Machine.start p "" none).set "x" ⟨0⟩)).1
  have hcut : (Machine.run conf p 3 1 ((Machine.start p "" none).set "x" ⟨0⟩)).2 = .cut 3 3 := by
    decide +kernel
  have hrun : ((Machine.start p "" none).set "x" ⟨0⟩).answer conf p 3 .run =
      (m, .ended (.cut 3 3)) := by
    rw [Machine.answer, ← hcut]
  have h : Session conf p (.start p "" none)
      [(.set "x" ⟨0⟩, .done), (.run, .ended (.cut 3 3))] m :=
    .request 0 rfl (.request 3 hrun (.done m))
  have h' : Session conf p m [(.defineLabel "loop" (-7), .done), (.get "y", .looked none)]
      { m with labels := m.labels.insert "loop" (-7) } :=
    .request 0 rfl (.request 0 (Prod.ext rfl (by decide +kernel)) (.done _))
  obtain ⟨hvars, hlabels, -, hsame, hlimit⟩ := sessions_only_move_forward conf p "" none h h'
  have hsteps : (m.steps : Int) = 3 := by decide +kernel
  obtain ⟨-, hatLimit⟩ := hlimit (by decide)
  obtain ⟨n, s, hs, hfirst, hanswer⟩ := hatLimit hsteps ⟨2, _, rfl⟩
  have hn : n = 2 := by
    have hlow : ∀ k : Nat, k < 2 → p.stmt? k = none := by decide +kernel
    rcases Nat.lt_trichotomy n 2 with hlt | heq | hgt
    · rw [hlow n hlt] at hs
      cases hs
    · exact heq
    · cases hfirst 2 (by omega)
  subst hn
  exact ⟨p, m, _, rfl, h, h', hvars "x" (by decide +kernel), hlabels "loop" (by decide +kernel),
    by rw [hsame (by decide)]; exact hsteps, hanswer⟩

end TinyLang
