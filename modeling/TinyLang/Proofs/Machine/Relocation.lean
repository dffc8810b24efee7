import TinyLang.Proofs.Machine.Limit
import TinyLang.Proofs.Program.Labels

/-!
# Programs at other lines

Two programs have the same statements in the same order, but on other lines, and labels mean the
lines accordingly (`Program.Relocates`). Their runs go side by side and differ in nothing but the
lines that they report. Control is on corresponding lines if the same statements lie ahead, so lines
without a statement between them make no difference.

* `Expr.eval_relocate`, `Machine.exec_relocate`: one statement on two lines.
* `Machine.run_relocate`: two runs side by side.
-/

namespace TinyLang

/-! ## Other lines -/

/-- The statement on another line. -/
def Stmt.relocate (f : Int → Int) (s : Stmt) : Stmt := { s with line := f s.line }

def Stop.relocate (f : Int → Int) : Stop → Stop
  | .failed d => .failed { d with line := f d.line }
  | stop => stop

def Flow.relocate (f : Int → Int) : Flow → Flow
  | .next => .next
  | .jump line => .jump (f line)

/-- The ending with the line that it reports replaced. -/
def Ending.relocate (f : Int → Int) : Ending → Ending
  | .stopped stop => .stopped (stop.relocate f)
  | .cut limit line => .cut limit (f line)
  | e => e

/-- The machine with labels that mean other lines. -/
def Machine.relocate (f : Int → Int) (m : Machine) : Machine :=
  { m with labels := m.labels.mapValues f }

/-- The first program's statements stand on other lines in the second one, in the same order, and
the second one has no further statements. A label means the line that its line has become. -/
structure Program.Relocates (f : Int → Int) (p q : Program) : Prop where
  lt_iff : ∀ k n, f k < f n ↔ k < n
  stmt : ∀ n, q.stmt? (f n) = (p.stmt? n).map (Stmt.relocate f)
  exists_line : ∀ n s, q.stmt? n = some s → ∃ k, n = f k
  labels : (q.labels.mapValues fun (line : Nat) => (line : Int)) =
    p.labels.mapValues fun (line : Nat) => f line

variable {f : Int → Int}

/-! ## One statement -/

section Statement

variable {vars : Table Number} {line : Int}

/-- An expression has the same value on any line, and if it has none the line is the only
difference. -/
theorem Expr.eval_relocate (e : Expr) :
    e.eval vars (f line) = (e.eval vars line).mapError (Stop.relocate f) := by
  induction e with
  | var name =>
    rw [Expr.eval, Expr.eval]
    cases vars.find? name <;> rfl
  | number text =>
    rw [Expr.eval, Expr.eval]
    cases Number.read? text <;> rfl
  | quotation text => rfl
  | hole => rfl
  | binary op left right ihl ihr =>
    rw [Expr.eval, Expr.eval, ihl, ihr]
    cases left.eval vars line with
    | error stop => rfl
    | ok x =>
      cases right.eval vars line with
      | error stop => rfl
      | ok y =>
        simp only [Except.mapError, bind, Except.bind]
        cases op.result? x y with
        | some v => rfl
        | none => cases op.render <;> rfl

theorem mapM_mapError {α β ε : Type} (g : α → Except ε β) (h : ε → ε) (xs : List α) :
    (xs.mapM fun x => (g x).mapError h) = (xs.mapM g).mapError h := by
  induction xs with
  | nil => rfl
  | cons x xs ih =>
    rw [List.mapM_cons, List.mapM_cons, ih]
    cases g x with
    | error e => rfl
    | ok y => cases xs.mapM g <;> rfl

theorem PrintItem.eval_relocate (item : PrintItem) :
    item.eval vars (f line) = (item.eval vars line).mapError (Stop.relocate f) := by
  cases item with
  | literal text => rfl
  | value e =>
    rw [PrintItem.eval, PrintItem.eval, e.eval_relocate]
    cases e.eval vars line <;> rfl

namespace Machine

@[simp] theorem relocate_vars (m : Machine) : (m.relocate f).vars = m.vars := rfl

@[simp] theorem relocate_labels (m : Machine) :
    (m.relocate f).labels = m.labels.mapValues f := rfl

@[simp] theorem relocate_input (m : Machine) : (m.relocate f).input = m.input := rfl

@[simp] theorem relocate_output (m : Machine) : (m.relocate f).output = m.output := rfl

theorem printed_relocate (m : Machine) (items : List PrintItem) :
    (m.relocate f).printed (f line) items =
      (m.printed line items).mapError (Stop.relocate f) := by
  have hitems : PrintItem.eval m.vars (f line) =
      fun item => (item.eval m.vars line).mapError (Stop.relocate f) :=
    funext PrintItem.eval_relocate
  unfold printed printedText
  rw [relocate_vars, hitems, mapM_mapError]
  cases items.mapM (PrintItem.eval m.vars line) <;> rfl

theorem readNumber_relocate (m : Machine) :
    (m.relocate f).readNumber (f line) = ((m.readNumber line).1.relocate f,
      (m.readNumber line).2.mapError (Stop.relocate f)) := by
  unfold readNumber
  rw [relocate_input]
  cases m.input.takeLine? with
  | none => rfl
  | some taken =>
    obtain ⟨text, rest⟩ := taken
    cases hread : Number.read? text.trim <;> simp only [hread] <;> rfl

theorem write_relocate (m : Machine) (t : Text) :
    (m.relocate f).write t = ((m.write t).1.relocate f,
      (m.write t).2.mapError (Stop.relocate f)) := by
  unfold write
  rw [relocate_output]
  cases m.output.fits t <;> rfl

theorem ask_relocate (m : Machine) (prompt : Text) :
    (m.relocate f).ask prompt = ((m.ask prompt).1.relocate f,
      (m.ask prompt).2.mapError (Stop.relocate f)) := by
  rw [ask_def, ask_def, write_relocate]
  cases prompt.isEmpty <;> rfl

/-- **A statement does the same on another line** with other labels, and goes on or stops
accordingly. -/
theorem exec_relocate (m : Machine) (conf : Settings) (s : Stmt) :
    (m.relocate f).exec conf (s.relocate f) = ((m.exec conf s).1.relocate f,
      ((m.exec conf s).2.map (Flow.relocate f)).mapError (Stop.relocate f)) := by
  obtain ⟨line, action⟩ := s
  simp only [exec, Stmt.relocate]
  cases action with
  | assign target e =>
    simp only [perform_assign, relocate_vars, Expr.eval_relocate]
    cases e.eval m.vars line <;> rfl
  | branch c label =>
    simp only [perform_branch, relocate_vars, relocate_labels, Expr.eval_relocate,
      Table.find?_mapValues]
    cases c.eval m.vars line with
    | error stop => rfl
    | ok v =>
      by_cases hv : v.isTrue
      · simp only [Except.mapError, hv, if_true]
        cases m.labels.find? label <;> rfl
      · simp only [Except.mapError, hv]
        rfl
  | print items =>
    simp only [perform_print, printed_relocate]
    cases m.printed line items with
    | error stop => rfl
    | ok text =>
      simp only [Except.mapError, write_relocate]
      rcases m.write text with ⟨m', stop | _⟩ <;> rfl
  | input target =>
    simp only [perform_input, ask_relocate]
    rcases m.ask conf.prompt with ⟨m', stop | _⟩
    · rfl
    · simp only [Except.mapError, readNumber_relocate]
      rcases m'.readNumber line with ⟨m'', stop | v⟩ <;> rfl

end Machine

end Statement

/-! ## Two runs -/

namespace Program.Relocates

variable {p q : Program}

/-- The next statement is the same one, if the same lines are ahead. -/
theorem next? (h : Relocates f p q) {line line' : Int} (hline : ∀ n, line ≤ n ↔ line' ≤ f n) :
    (p.next? line = none → q.next? line' = none) ∧
    ∀ n s, p.next? line = some (n, s) →
      ∃ n' : Nat, (n' : Int) = f n ∧ q.next? line' = some (n', s.relocate f) := by
  -- a line of `q` that has a statement is one of `p`
  have hnone : ∀ n, (∀ k, n = f k → p.stmt? k = none) → q.stmt? n = none := by
    intro n hk
    rw [Option.eq_none_iff_forall_ne_some]
    intro s hs
    obtain ⟨k, rfl⟩ := h.exists_line n s hs
    rw [h.stmt, hk k rfl] at hs
    cases hs
  have hnext := p.next?_next line
  have hnext' := q.next?_next line'
  constructor
  · intro hp
    rw [hp] at hnext
    cases hnext with
    | absent hall =>
      refine hnext'.unique (.absent fun n hn => hnone n fun k hk => hall k ?_)
      rw [hline, ← hk]
      exact hn
  · intro n s hp
    rw [hp] at hnext
    cases hnext with
    | found hle hs hfirst =>
      have hs' : q.stmt? (f n) = some (s.relocate f) := by rw [h.stmt, hs]; rfl
      have hpos := (stmt?_le_size hs').1
      refine ⟨(f n).toNat, by omega, hnext'.unique ?_⟩
      have hcast : ((f n).toNat : Int) = f n := by omega
      refine .found (by rw [hcast]; exact (hline n).mp hle) (by rw [hcast]; exact hs') ?_
      intro i hi hlt
      refine hnone i fun k hk => hfirst k ?_ ?_
      · rw [hline, ← hk]
        exact hi
      · rw [← h.lt_iff, ← hk, ← hcast]
        exact hlt

/-- After a statement the same lines are ahead. -/
theorem follow (h : Relocates f p q) {n n' : Nat} (hn : (n' : Int) = f n) (flow : Flow) (k : Int) :
    Machine.follow n flow ≤ k ↔ Machine.follow n' (flow.relocate f) ≤ f k := by
  cases flow with
  | next =>
    have := h.lt_iff n k
    simp only [Machine.follow, Flow.relocate]
    omega
  | jump line =>
    have := h.lt_iff k line
    simp only [Machine.follow, Flow.relocate]
    omega

end Program.Relocates

namespace Machine

variable {p q : Program}

theorem start_relocate (h : p.Relocates f q) (stdin : Text) (room : Option Nat) :
    start q stdin room = (start p stdin room).relocate f := by
  unfold start relocate
  rw [h.labels]
  simp [Table.mapValues]

theorem arrive_relocate (h : p.Relocates f q) {conf : Settings} {line line' : Int}
    (hline : ∀ n, line ≤ n ↔ line' ≤ f n) {m : Machine} {n : Nat} {s : Stmt}
    (ha : m.arrive conf p line = .statement n s) :
    ∃ n' : Nat, (n' : Int) = f n ∧
      (m.relocate f).arrive conf q line' = .statement n' (s.relocate f) := by
  obtain ⟨hn, hlimit⟩ := arrive_eq_statement.mp ha
  obtain ⟨n', hn', hnext⟩ := (h.next? hline).2 n s hn
  exact ⟨n', hn', arrive_eq_statement.mpr ⟨hnext, hlimit⟩⟩

/-- **Runs of a program and of the program on other lines go side by side**, if the same lines are
ahead, and differ in the lines that they report only. -/
theorem run_relocate (h : p.Relocates f q) (conf : Settings) (fuel : Nat) {line line' : Int}
    (hline : ∀ n, line ≤ n ↔ line' ≤ f n) (m : Machine) :
    run conf q fuel line' (m.relocate f) =
      ((run conf p fuel line m).1.relocate f, (run conf p fuel line m).2.relocate f) := by
  fun_induction run conf p fuel line m generalizing line' with
  | case1 fuel line m ha =>
    unfold run
    rw [arrive_eq_pastEnd.mpr ((h.next? hline).1 (arrive_eq_pastEnd.mp ha))]
    rfl
  | case2 fuel line m n ha =>
    obtain ⟨s, hn, hlimit⟩ := arrive_eq_overLimit.mp ha
    obtain ⟨n', hn', hnext⟩ := (h.next? hline).2 n s hn
    unfold run
    rw [(arrive_eq_overLimit (m := m.relocate f)).mpr ⟨_, hnext, hlimit⟩]
    simp only [hn', Ending.relocate]
  | case3 line m n s ha =>
    obtain ⟨n', -, harrive⟩ := arrive_relocate h hline ha
    exact run_zero harrive
  | case4 line m n s ha fuel m' flow hexec ih =>
    obtain ⟨n', hn', harrive⟩ := arrive_relocate h hline ha
    have hexec' := exec_relocate (f := f) (m.begin conf s) conf s
    rw [hexec] at hexec'
    rw [run_succ_ok fuel harrive hexec']
    exact ih (h.follow hn' flow)
  | case5 line m n s ha fuel m' stop hexec =>
    obtain ⟨n', -, harrive⟩ := arrive_relocate h hline ha
    have hexec' := exec_relocate (f := f) (m.begin conf s) conf s
    rw [hexec] at hexec'
    exact run_succ_error fuel harrive hexec'

end Machine

end TinyLang
