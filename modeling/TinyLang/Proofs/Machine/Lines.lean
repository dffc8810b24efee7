import TinyLang.Proofs.Program.Next
import Mathlib.Logic.Function.Iterate

/-!
# Runs, line by line

`Machine.run` goes from statement to statement. Seen from the source text, a run goes from line to
line: a blank line is passed, a statement is executed, and the run is over past the last line. This
file defines that finer walk (`Position.next`) and keeps a log of the items of each print line.

Results:
* `Machine.run_walks`: a run that ends is a walk that ends, in the same machine and with the
  same ending.
* `Machine.walk_runs`: conversely, a walk that ends is a run that ends, given enough fuel.
* `Machine.walk_output`: with no prompt and no bound on the output, what a run has written is the
  text of the lines logged.
-/

namespace TinyLang

/-! ## Items of print lines -/

/-- What a print list hands over: a text or a number. -/
inductive Item
  | text (t : Text)
  | number (v : Number)
deriving DecidableEq, Repr

namespace Item

/-- The text that an item contributes to its line. -/
def shown : Item → Text
  | text t => t
  | number v => v.text

/-- The line that items make: each followed by a space, then a newline. -/
def line (items : List Item) : Text :=
  (items.flatMap fun i => (i.shown ++ " " : Text)) ++ ("\n" : Text)

end Item

/-- The item that a print item is under an assignment of the variables. -/
def PrintItem.item (vars : Table Number) (line : Int) : PrintItem → Except Stop Item
  | .literal t => .ok (.text t)
  | .value e => do return .number (← e.eval vars line)

/-- The lines that a statement completes: one if it prints and all its items have values. -/
def Stmt.printedLines (vars : Table Number) (s : Stmt) : List (List Item) :=
  match s.action with
  | .print items =>
    match items.mapM (PrintItem.item vars s.line) with
    | .ok is => [is]
    | .error _ => []
  | _ => []

theorem PrintItem.eval_eq_item (vars : Table Number) (line : Int) (i : PrintItem) :
    i.eval vars line = (i.item vars line).map Item.shown := by
  cases i with
  | literal t => rfl
  | value e =>
    simp only [PrintItem.eval, PrintItem.item]
    cases e.eval vars line <;> rfl

theorem Machine.printed_eq_items (m : Machine) (line : Int) (items : List PrintItem) :
    m.printed line items =
      (items.mapM (PrintItem.item m.vars line)).map Item.line := by
  have hmap : items.mapM (PrintItem.eval m.vars line) =
      (items.mapM (PrintItem.item m.vars line)).map (List.map Item.shown) := by
    induction items with
    | nil => rfl
    | cons i rest ih =>
      rw [List.mapM_cons, List.mapM_cons, PrintItem.eval_eq_item, ih]
      cases i.item m.vars line with
      | error e => rfl
      | ok x => cases rest.mapM (PrintItem.item m.vars line) <;> rfl
  unfold Machine.printed printedText
  rw [hmap]
  cases items.mapM (PrintItem.item m.vars line) with
  | error e => rfl
  | ok is =>
    show Except.ok _ = Except.ok _
    simp only [Item.line, List.flatMap_map]

/-! ## The walk -/

/-- Where a walk is: at a line, or past its end. Both carry the machine and the lines printed so
far, oldest first. -/
inductive Position
  | arriving (line : Int) (m : Machine) (printed : List (List Item))
  | ended (ending : Ending) (m : Machine) (printed : List (List Item))

namespace Position

/-- The position after a statement on a line, executed in a machine. -/
def after (conf : Settings) (line : Int) (s : Stmt) (m : Machine) (printed : List (List Item)) :
    Position :=
  match (m.begin conf s).exec conf s with
  | (m', .ok .next) => .arriving (line + 1) m' (printed ++ s.printedLines m.vars)
  | (m', .ok (.jump target)) => .arriving target m' (printed ++ s.printedLines m.vars)
  | (m', .error stop) => .ended (.stopped stop) m' printed

/-- One line of a walk. A walk that is over stays where it is. -/
def next (conf : Settings) (p : Program) : Position → Position
  | .ended ending m printed => .ended ending m printed
  | .arriving line m printed =>
    if p.size < line then .ended .finished m printed
    else
      match p.stmt? line with
      | none => .arriving (line + 1) m printed
      | some s =>
        if m.atLimit conf then .ended (.cut conf.limit line) m printed
        else after conf line s m printed

/-- The line, machine and log of a walk that is at a line of the program. -/
def visit? (p : Program) : Position → Option (Int × Machine × List (List Item))
  | .arriving line m printed => if line ≤ p.size then some (line, m, printed) else none
  | .ended _ _ _ => none

end Position

namespace Machine

/-- The position of a walk from line 1 after a number of lines. -/
def walk (conf : Settings) (p : Program) (m : Machine) (n : Nat) : Position :=
  (Position.next conf p)^[n] (.arriving 1 m [])

/-- The lines that a walk is at before its `n`-th step, with the machine and the log there. -/
def visits (conf : Settings) (p : Program) (m : Machine) (n : Nat) :
    List (Int × Machine × List (List Item)) :=
  (List.range n).filterMap fun i => (m.walk conf p i).visit? p

end Machine

/-! ## Visits -/

theorem filterMap_range_succ {α : Type} (f : Nat → Option α) (n : Nat) :
    (List.range (n + 1)).filterMap f = (List.range n).filterMap f ++ (f n).toList := by
  rw [List.range_succ, List.filterMap_append, List.filterMap_cons, List.filterMap_nil]
  cases f n <;> rfl

theorem exists_filterMap_range {α : Type} {f : Nat → Option α} {n : Nat} {l : List α}
    (h : l <+: (List.range n).filterMap f) : ∃ k, l = (List.range k).filterMap f := by
  induction n with
  | zero => exact ⟨0, List.prefix_nil.mp h⟩
  | succ n ih =>
    rw [filterMap_range_succ] at h
    cases hf : f n with
    | none =>
      rw [hf, Option.toList_none, List.append_nil] at h
      exact ih h
    | some x =>
      rw [hf, Option.toList_some] at h
      rcases List.prefix_concat_iff.mp h with rfl | h
      · exact ⟨n + 1, by rw [filterMap_range_succ, hf, Option.toList_some]⟩
      · exact ih h

theorem Machine.visits_succ (conf : Settings) (p : Program) (m : Machine) (n : Nat) :
    m.visits conf p (n + 1) = m.visits conf p n ++ ((m.walk conf p n).visit? p).toList :=
  filterMap_range_succ _ n

/-- The first visits of a walk are its visits up to an earlier time. -/
theorem Machine.exists_visits_take (conf : Settings) (p : Program) (m : Machine) (n count : Nat) :
    ∃ k, (m.visits conf p n).take count = m.visits conf p k :=
  exists_filterMap_range (List.take_prefix count _)

/-! ## Passing blank lines -/

section Walk

variable {conf : Settings} {p : Program} {m : Machine} {printed : List (List Item)}

theorem Position.next_past {line : Int} (h : p.size < line) :
    Position.next conf p (.arriving line m printed) = .ended .finished m printed := by
  simp only [Position.next, if_pos h]

theorem Position.next_blank {line : Int} (hle : ¬ p.size < line) (h : p.stmt? line = none) :
    Position.next conf p (.arriving line m printed) = .arriving (line + 1) m printed := by
  simp only [Position.next, if_neg hle, h]

theorem Position.next_statement {line : Int} {s : Stmt} (hle : ¬ p.size < line)
    (hs : p.stmt? line = some s) (hlimit : m.atLimit conf = false) :
    Position.next conf p (.arriving line m printed) = Position.after conf line s m printed := by
  simp only [Position.next, if_neg hle, hs, hlimit, Bool.false_eq_true, if_false]

theorem Position.next_overLimit {line : Int} {s : Stmt} (hle : ¬ p.size < line)
    (hs : p.stmt? line = some s) (hlimit : m.atLimit conf = true) :
    Position.next conf p (.arriving line m printed) =
      .ended (.cut conf.limit line) m printed := by
  simp only [Position.next, if_neg hle, hs, hlimit, if_true]

theorem Position.iterate_ended (n : Nat) {e : Ending} :
    (Position.next conf p)^[n] (.ended e m printed) = .ended e m printed :=
  Function.iterate_fixed rfl n

/-- A walk that is over at one time is over, in the same way, at every later time. -/
theorem Position.iterate_of_ended {x : Position} {n k : Nat} {e : Ending} (hnk : n ≤ k)
    (h : (Position.next conf p)^[n] x = .ended e m printed) :
    (Position.next conf p)^[k] x = .ended e m printed := by
  obtain ⟨d, rfl⟩ := Nat.exists_eq_add_of_le hnk
  rw [Nat.add_comm, Function.iterate_add_apply, h, Position.iterate_ended]

/-- A walk ends once, and in one way. -/
theorem Position.ended_unique {x : Position} {n k : Nat} {e e' : Ending} {m' : Machine}
    {printed' : List (List Item)} (h : (Position.next conf p)^[n] x = .ended e m printed)
    (h' : (Position.next conf p)^[k] x = .ended e' m' printed') :
    e = e' ∧ m = m' ∧ printed = printed' := by
  -- both endings are still there at the later of the two times
  have hmax := Position.iterate_of_ended (Nat.le_max_left n k) h
  rw [Position.iterate_of_ended (Nat.le_max_right n k) h'] at hmax
  cases hmax
  exact ⟨rfl, rfl, rfl⟩

theorem Machine.walk_succ {k : Nat} {x : Position} (h : m.walk conf p k = x) :
    m.walk conf p (k + 1) = x.next conf p := by
  rw [← h]
  exact Function.iterate_succ_apply' _ _ _

theorem Machine.walk_add {k : Nat} {x : Position} (h : m.walk conf p k = x) (j : Nat) :
    m.walk conf p (k + j) = (Position.next conf p)^[j] x := by
  rw [← h, Nat.add_comm]
  exact Function.iterate_add_apply _ _ _ _

variable (conf p m printed)

/-- Lines without a statement are passed. -/
theorem Position.iterate_blank {line line' : Int} (hle : line ≤ line') (hsize : line' ≤ p.size + 1)
    (hnone : ∀ n, line ≤ n → n < line' → p.stmt? n = none) :
    ∃ k, (Position.next conf p)^[k] (.arriving line m printed) = .arriving line' m printed := by
  obtain ⟨d, hd⟩ := Int.le.dest hle
  induction d generalizing line with
  | zero => exact ⟨0, by rw [show line = line' by omega]; rfl⟩
  | succ d ih =>
    obtain ⟨k, hk⟩ := @ih (line + 1) (by omega) (fun n hn => hnone n (by omega)) (by omega)
    have hblank : p.stmt? line = none := hnone line (Int.le_refl _) (by omega)
    exact ⟨k + 1, by rw [Function.iterate_succ_apply, Position.next_blank (by omega) hblank, hk]⟩

/-- **A walk finds the next statement**, or the end of the program if there is none. -/
theorem Position.iterate_next? (line : Int) :
    (p.next? line = none → ∃ k, (Position.next conf p)^[k] (.arriving line m printed) =
      .ended .finished m printed) ∧
    ∀ n s, p.next? line = some (n, s) → p.stmt? n = some s ∧
      ∃ k, (Position.next conf p)^[k] (.arriving line m printed) = .arriving n m printed := by
  have hnext := p.next?_next line
  constructor
  · intro h
    rw [h] at hnext
    cases hnext with
    | absent hall =>
      by_cases hpast : p.size < line
      · exact ⟨1, Position.next_past hpast⟩
      · have hend : line ≤ p.size + 1 := by omega
        obtain ⟨k, hk⟩ := Position.iterate_blank conf p m printed hend (Int.le_refl _)
          fun n hn _ => hall n hn
        refine ⟨k + 1, ?_⟩
        rw [Function.iterate_succ_apply', hk]
        exact Position.next_past (by omega)
  · intro n s h
    rw [h] at hnext
    cases hnext with
    | found hle hs hfirst =>
      have := (Program.stmt?_le_size hs).2
      exact ⟨hs, Position.iterate_blank conf p m printed hle (by omega) hfirst⟩

/-! ## Runs are walks -/

variable {conf p m printed}

/-- What a run meets at a line, a walk from that line comes to. -/
theorem Machine.arrive_statement {line : Int} {n : Nat} {s : Stmt}
    (ha : m.arrive conf p line = .statement n s) (printed : List (List Item)) :
    ∃ k, (Position.next conf p)^[k + 1] (.arriving line m printed) =
      Position.after conf n s m printed := by
  unfold Machine.arrive at ha
  split at ha
  · cases ha
  next n' s' hn =>
    split at ha
    · cases ha
    next hlimit =>
      cases ha
      obtain ⟨hs, k, hk⟩ := (Position.iterate_next? conf p m printed line).2 n s hn
      refine ⟨k, ?_⟩
      rw [Function.iterate_succ_apply', hk]
      exact Position.next_statement (by have := (Program.stmt?_le_size hs).2; omega) hs
        (Bool.eq_false_iff.mpr hlimit)

/-- A run that meets no statement ends there, and so does the walk. -/
theorem Machine.run_ends {line : Int} (ha : ∀ n s, m.arrive conf p line ≠ .statement n s)
    (fuel : Nat) (printed : List (List Item)) :
    ∃ e k, Machine.run conf p fuel line m = (m, e) ∧ e ≠ .unfinished ∧
      (Position.next conf p)^[k] (.arriving line m printed) = .ended e m printed := by
  obtain ⟨hnone, hsome⟩ := Position.iterate_next? conf p m printed line
  unfold Machine.run
  unfold Machine.arrive at ha ⊢
  cases hn : p.next? line with
  | none =>
    obtain ⟨k, hk⟩ := hnone hn
    exact ⟨.finished, k, rfl, nofun, hk⟩
  | some ns =>
    obtain ⟨n, s⟩ := ns
    obtain ⟨hs, k, hk⟩ := hsome n s hn
    cases hlimit : m.atLimit conf with
    | true =>
      have := (Program.stmt?_le_size hs).2
      refine ⟨.cut conf.limit n, k + 1, rfl, nofun, ?_⟩
      rw [Function.iterate_succ_apply', hk]
      exact Position.next_overLimit (by omega) hs hlimit
    | false => exact absurd (by rw [hn, hlimit]; rfl) (ha n s)

theorem Machine.run_zero {line : Int} {n : Nat} {s : Stmt}
    (ha : m.arrive conf p line = .statement n s) :
    Machine.run conf p 0 line m = (m, .unfinished) := by
  unfold Machine.run
  rw [ha]

theorem Machine.run_succ_ok (fuel : Nat) {line : Int} {n : Nat} {s : Stmt} {m' : Machine}
    {flow : Flow} (ha : m.arrive conf p line = .statement n s)
    (hx : (m.begin conf s).exec conf s = (m', .ok flow)) :
    Machine.run conf p (fuel + 1) line m = Machine.run conf p fuel (Machine.follow n flow) m' := by
  rw [Machine.run]
  simp only [ha, hx]

theorem Machine.run_succ_error (fuel : Nat) {line : Int} {n : Nat} {s : Stmt} {m' : Machine}
    {stop : Stop} (ha : m.arrive conf p line = .statement n s)
    (hx : (m.begin conf s).exec conf s = (m', .error stop)) :
    Machine.run conf p (fuel + 1) line m = (m', .stopped stop) := by
  rw [Machine.run]
  simp only [ha, hx]

/-- What a run with fuel means for the walk from the same line. -/
theorem Machine.run_iterate (fuel : Nat) (line : Int) (m : Machine) (printed : List (List Item)) :
    (∀ m' e, Machine.run conf p fuel line m = (m', e) → e ≠ .unfinished →
      ∃ k printed', (Position.next conf p)^[k] (.arriving line m printed) =
        .ended e m' printed') ∧
    ∀ m', Machine.run conf p fuel line m = (m', .unfinished) →
      ∃ k line' m'' printed', fuel ≤ k ∧
        (Position.next conf p)^[k] (.arriving line m printed) = .arriving line' m'' printed' := by
  induction fuel generalizing line m printed with
  | zero =>
    by_cases hst : ∃ n s, m.arrive conf p line = .statement n s
    · obtain ⟨n, s, ha⟩ := hst
      rw [Machine.run_zero ha]
      refine ⟨?_, ?_⟩
      · rintro m' e ⟨⟩ hne
        exact absurd rfl hne
      · rintro m' ⟨⟩
        exact ⟨0, line, m, printed, Nat.le_refl 0, rfl⟩
    · obtain ⟨e, k, hrun, hne, hk⟩ := Machine.run_ends (by simpa using hst) 0 printed
      rw [hrun]
      refine ⟨?_, ?_⟩
      · rintro m' e ⟨⟩ -
        exact ⟨k, printed, hk⟩
      · rintro m' ⟨⟩
        exact absurd rfl hne
  | succ fuel ih =>
    by_cases hst : ∃ n s, m.arrive conf p line = .statement n s
    · obtain ⟨n, s, ha⟩ := hst
      obtain ⟨k, hk⟩ := Machine.arrive_statement ha printed
      unfold Position.after at hk
      rcases hx : (m.begin conf s).exec conf s with ⟨m₁, stop | flow⟩
      · rw [hx] at hk
        rw [Machine.run_succ_error fuel ha hx]
        refine ⟨?_, nofun⟩
        rintro m' e ⟨⟩ -
        exact ⟨k + 1, printed, hk⟩
      · rw [Machine.run_succ_ok fuel ha hx]
        have hflow : (Position.next conf p)^[k + 1] (.arriving line m printed) =
            .arriving (Machine.follow n flow) m₁ (printed ++ s.printedLines m.vars) := by
          rw [hk, hx]
          cases flow <;> rfl
        obtain ⟨ihend, ihmore⟩ :=
          ih (Machine.follow n flow) m₁ (printed ++ s.printedLines m.vars)
        refine ⟨fun m' e h hne => ?_, fun m' h => ?_⟩
        · obtain ⟨j, printed', hj⟩ := ihend m' e h hne
          exact ⟨j + (k + 1), printed', by rw [Function.iterate_add_apply, hflow, hj]⟩
        · obtain ⟨j, line', m'', printed', hle, hj⟩ := ihmore m' h
          exact ⟨j + (k + 1), line', m'', printed', by omega,
            by rw [Function.iterate_add_apply, hflow, hj]⟩
    · obtain ⟨e, k, hrun, hne, hk⟩ := Machine.run_ends (by simpa using hst) (fuel + 1) printed
      rw [hrun]
      refine ⟨?_, ?_⟩
      · rintro m' e ⟨⟩ -
        exact ⟨k, printed, hk⟩
      · rintro m' ⟨⟩
        exact absurd rfl hne

/-- **A run that ends is a walk that ends**, in the same machine. -/
theorem Machine.run_walks {fuel : Nat} {m' : Machine} {e : Ending}
    (h : Machine.run conf p fuel 1 m = (m', e)) (hne : e ≠ .unfinished) :
    ∃ k printed', m.walk conf p k = .ended e m' printed' :=
  (Machine.run_iterate fuel 1 m []).1 m' e h hne

/-- **A walk that ends is a run that ends**, with enough fuel. -/
theorem Machine.walk_runs {k : Nat} {m' : Machine} {e : Ending} {printed' : List (List Item)}
    (h : m.walk conf p k = .ended e m' printed') :
    e ≠ .unfinished ∧ ∃ fuel, Machine.run conf p fuel 1 m = (m', e) := by
  rcases hrun : Machine.run conf p (k + 1) 1 m with ⟨m₁, e₁⟩
  have hne : e₁ ≠ .unfinished := by
    rintro rfl
    obtain ⟨j, line', m'', printed'', hle, hj⟩ := (Machine.run_iterate (k + 1) 1 m []).2 m₁ hrun
    rw [Position.iterate_of_ended (by omega) h] at hj
    cases hj
  obtain ⟨j, printed₁, hj⟩ := Machine.run_walks hrun hne
  obtain ⟨rfl, rfl, -⟩ := Position.ended_unique h hj
  exact ⟨hne, k + 1, hrun⟩

/-- The runs that end are the walks that end. -/
theorem Machine.run_iff_walk {m' : Machine} {e : Ending} :
    (e ≠ .unfinished ∧ ∃ fuel, Machine.run conf p fuel 1 m = (m', e)) ↔
      ∃ k printed', m.walk conf p k = .ended e m' printed' :=
  ⟨fun ⟨hne, _, h⟩ => Machine.run_walks h hne, fun ⟨_, _, h⟩ => Machine.walk_runs h⟩

/-! ## The log is the output -/

theorem Output.write_unbounded {o : Output} (h : o.room = none) (t : Text) :
    (o.write t).room = none ∧ (o.write t).text = o.text ++ t := by
  unfold Output.write Output.text
  rw [h]
  simp

/-- A statement that cannot be completed prints no line. -/
theorem Stmt.printedLines_of_error {s : Stmt} {m' : Machine} {stop : Stop}
    (hroom : m.output.room = none) (h : m.exec conf s = (m', .error stop)) :
    s.printedLines m.vars = [] := by
  obtain ⟨line, action⟩ := s
  cases action with
  | print items =>
    unfold Machine.exec at h
    unfold Stmt.printedLines
    simp only [Machine.perform_print, Machine.printed_eq_items] at h ⊢
    cases hitems : items.mapM (PrintItem.item m.vars line) with
    | error e => rfl
    | ok is => simp [hitems, Except.map, Machine.write, Output.fits, hroom] at h
  | assign target e => rfl
  | branch condition label => rfl
  | input target => rfl

/-- The text that a statement writes: the prompt if it reads input, and what it prints. -/
def Stmt.written (prompt : Text) (vars : Table Number) (s : Stmt) : Text :=
  match s.action with
  | .input _ => prompt
  | _ => (s.printedLines vars).flatMap Item.line

theorem Stmt.written_nil (vars : Table Number) (s : Stmt) :
    s.written [] vars = (s.printedLines vars).flatMap Item.line := by
  obtain ⟨line, action⟩ := s
  cases action <;> rfl

theorem Machine.ask_unbounded {m : Machine} (prompt : Text) (h : m.output.room = none) :
    ∃ o : Output, o.room = none ∧ o.text = m.output.text ++ prompt ∧
      m.ask prompt = ({ m with output := o }, .ok ()) := by
  rw [Machine.ask_def]
  by_cases hempty : prompt = []
  · exact ⟨m.output, h, by simp [hempty], by simp [hempty]⟩
  · obtain ⟨hroom, htext⟩ := Output.write_unbounded h prompt
    exact ⟨m.output.write prompt, hroom, htext, by simp [hempty, Machine.write, Output.fits, h]⟩

variable (conf) in
/-- Executing a statement adds what it writes to the output, if there is no bound. -/
theorem Machine.exec_output (hroom : m.output.room = none) (s : Stmt) :
    (m.exec conf s).1.output.room = none ∧
      (m.exec conf s).1.output.text = m.output.text ++ s.written conf.prompt m.vars := by
  obtain ⟨line, action⟩ := s
  unfold Machine.exec Stmt.written Stmt.printedLines
  cases action with
  | assign target e =>
    rw [Machine.perform_assign]
    cases e.eval m.vars line <;> simp [hroom, Machine.set]
  | branch condition label =>
    rw [Machine.perform_branch]
    cases condition.eval m.vars line with
    | error stop => simp [hroom]
    | ok v =>
      cases hv : v.isTrue with
      | false => simp [hv, hroom]
      | true => cases m.labels.find? label <;> simp [hv, hroom]
  | print items =>
    simp only [Machine.perform_print, Machine.printed_eq_items]
    cases hitems : items.mapM (PrintItem.item m.vars line) with
    | error e => simp [Except.map, hroom]
    | ok is =>
      obtain ⟨h1, h2⟩ := Output.write_unbounded hroom (Item.line is)
      simp [Except.map, Machine.write, Output.fits, hroom, h1, h2]
  | input target =>
    obtain ⟨o, ho, htext, hask⟩ := Machine.ask_unbounded conf.prompt hroom
    simp only [Machine.perform_input, hask, Machine.readNumber]
    cases m.input.takeLine? with
    | none => simp [ho, htext]
    | some line =>
      obtain ⟨text, rest⟩ := line
      cases hread : Number.read? text.trim <;> simp [hread, ho, htext, Machine.set]

/-- The log of a position is what has been written. -/
def Position.Logged : Position → Prop
  | .arriving _ m printed => m.output.room = none ∧ m.output.text = printed.flatMap Item.line
  | .ended _ m printed => m.output.room = none ∧ m.output.text = printed.flatMap Item.line

theorem Position.after_output (hprompt : conf.prompt = []) (hroom : m.output.room = none)
    (htext : m.output.text = printed.flatMap Item.line) (line : Int) (s : Stmt) :
    (Position.after conf line s m printed).Logged := by
  have hroom' : (m.begin conf s).output.room = none := hroom
  obtain ⟨h1, h2⟩ := Machine.exec_output conf hroom' s
  rw [hprompt, Stmt.written_nil] at h2
  unfold Position.after
  rcases hx : (m.begin conf s).exec conf s with ⟨m', stop | flow⟩
  · rw [hx] at h1 h2
    rw [Stmt.printedLines_of_error hroom' hx, List.flatMap_nil, List.append_nil] at h2
    exact ⟨h1, h2.trans htext⟩
  · rw [hx] at h1 h2
    have hlog : m'.output.text = (printed ++ s.printedLines m.vars).flatMap Item.line := by
      rw [List.flatMap_append, ← htext]
      exact h2
    cases flow with
    | next => exact ⟨h1, hlog⟩
    | jump target => exact ⟨h1, hlog⟩

theorem Position.next_output (hprompt : conf.prompt = []) {x : Position} (h : x.Logged) :
    (Position.next conf p x).Logged := by
  cases x with
  | ended e m printed => exact h
  | arriving line m printed =>
    obtain ⟨hroom, htext⟩ := h
    by_cases hle : (p.size : Int) < line
    · rw [Position.next_past hle]
      exact ⟨hroom, htext⟩
    · cases hs : p.stmt? line with
      | none =>
        rw [Position.next_blank hle hs]
        exact ⟨hroom, htext⟩
      | some s =>
        cases hlimit : m.atLimit conf with
        | true =>
          rw [Position.next_overLimit hle hs hlimit]
          exact ⟨hroom, htext⟩
        | false =>
          rw [Position.next_statement hle hs hlimit]
          exact Position.after_output hprompt hroom htext line s

/-- **What a fresh run writes is the text of the lines it has printed**, if there is no prompt. -/
theorem Machine.walk_output (hprompt : conf.prompt = []) (stdin : Text) (n : Nat) :
    ((Machine.start p stdin none).walk conf p n).Logged := by
  induction n with
  | zero => exact ⟨rfl, rfl⟩
  | succ n ih =>
    unfold Machine.walk
    rw [Function.iterate_succ_apply']
    exact Position.next_output hprompt ih

end Walk

end TinyLang
