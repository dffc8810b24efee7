import TinyLang.Proofs.Machine.Perform
import TinyLang.Proofs.Program.Labels

/-!
# Jumps

Where a walk goes when it takes a branch. The machine looks its label up in its own table, which a
session may have changed; a fresh machine has the table of its program.

* `Machine.Takes`: a machine comes to a branch whose condition holds.
* `Machine.Takes.next_jump`, `Machine.Takes.next_undefined`: what happens then.
* `Machine.walk_inRange`: lines that labels mean keep a walk on the lines of the program, and on the
  one behind them.
* `labels_coherent_and_jumps_land`: the headline. The tables of a loaded program agree with its
  lines, and every branch that is taken goes to the last line that carries its label.
-/

namespace TinyLang

variable {conf : Settings} {p : Program} {m : Machine} {line : Int} {s : Stmt} {label : Text}

/-! ## Taking a branch -/

/-- The machine has come to the statement `s` on a line, may start it, and it is a branch to a label
whose condition holds. -/
structure Machine.Takes (conf : Settings) (p : Program) (line : Int) (m : Machine) (s : Stmt)
    (label : Text) : Prop where
  stmt : p.stmt? line = some s
  within : m.atLimit conf = false
  holds : ∃ condition v, s.action = .branch condition label ∧
    condition.eval m.vars s.line = .ok v ∧ v.isTrue = true

namespace Machine.Takes

/-- Executing a branch whose condition holds looks up its label and does nothing else. -/
theorem exec_eq (h : Takes conf p line m s label) :
    (m.begin conf s).exec conf s = (m.begin conf s,
      (m.labels.find? label).elim (.error (.failed ⟨s.line, .illegalGoto label⟩))
        fun target => .ok (.jump target)) := by
  obtain ⟨condition, v, haction, heval, htrue⟩ := h.holds
  have heval' : condition.eval (m.begin conf s).vars s.line = .ok v := heval
  unfold exec
  rw [haction, perform_branch]
  simp only [heval', htrue, if_true]
  show _ = (_, ((m.begin conf s).labels.find? label).elim _ _)
  cases (m.begin conf s).labels.find? label <;> rfl

theorem next_eq_after (h : Takes conf p line m s label) (printed : List (List Item)) :
    Position.next conf p (.arriving line m printed) = .after conf line s m printed := by
  have := (Program.stmt?_le_size h.stmt).2
  exact Position.next_statement (by omega) h.stmt h.within

/-- **A branch that is taken goes to the line that its label means.** -/
theorem next_jump (h : Takes conf p line m s label) {target : Int}
    (hlabel : m.labels.find? label = some target) (printed : List (List Item)) :
    Position.next conf p (.arriving line m printed) =
      .arriving target (m.begin conf s) printed := by
  obtain ⟨condition, v, haction, -, -⟩ := h.holds
  have hprinted : s.printedLines m.vars = [] := by
    unfold Stmt.printedLines
    rw [haction]
  rw [h.next_eq_after, Position.after, h.exec_eq, hlabel]
  show Position.arriving target (m.begin conf s) (printed ++ s.printedLines m.vars) = _
  rw [hprinted, List.append_nil]

/-- A branch to a label that means no line stops the walk. -/
theorem next_undefined (h : Takes conf p line m s label) (hlabel : m.labels.find? label = none)
    (printed : List (List Item)) :
    Position.next conf p (.arriving line m printed) =
      .ended (.stopped (.failed ⟨s.line, .illegalGoto label⟩)) (m.begin conf s) printed := by
  rw [h.next_eq_after, Position.after, h.exec_eq, hlabel]
  rfl

end Machine.Takes

/-! ## The lines of a walk -/

/-- A statement only jumps to lines that labels mean. -/
theorem Machine.exec_jump {m' : Machine} {target : Int}
    (h : m.exec conf s = (m', .ok (.jump target))) :
    ∃ label, m.labels.find? label = some target := by
  unfold exec at h
  cases haction : s.action with
  | assign name e =>
    rw [haction, perform_assign] at h
    split at h <;> cases h
  | branch condition label =>
    rw [haction, perform_branch] at h
    split at h
    · cases h
    split at h
    · split at h
      next target' hfind =>
        cases h
        exact ⟨label, hfind⟩
      · cases h
    · cases h
  | print items =>
    rw [haction, perform_print] at h
    split at h
    · cases h
    · split at h <;> cases h
  | input name =>
    rw [haction, perform_input] at h
    split at h
    · cases h
    · split at h <;> cases h

/-- A position that is at a line of the program or right behind the last one. -/
def Position.InRange (p : Program) : Position → Prop
  | .arriving line _ _ => 1 ≤ line ∧ line ≤ p.size + 1
  | .ended _ _ _ => True

/-- One line of a walk stays in range, if labels mean lines in range. -/
theorem Position.next_inRange {x : Position} (hx : x.InRange p)
    (hlabels : ∀ label target, x.machine.labels.find? label = some target →
      1 ≤ target ∧ target ≤ p.size + 1) :
    (x.next conf p).InRange p := by
  cases x with
  | ended e m printed => exact hx
  | arriving line m printed =>
    obtain ⟨hlow, hhigh⟩ := hx
    rcases Position.next_cases conf p line m printed with
      ⟨-, h⟩ | ⟨hle, -, h⟩ | ⟨s, hle, -, ⟨-, h⟩ | ⟨-, h⟩⟩
    · rw [h]
      trivial
    · rw [h]
      exact ⟨by omega, by omega⟩
    · rw [h]
      trivial
    · rw [h, Position.after]
      rcases hexec : (m.begin conf s).exec conf s with ⟨m', stop | _ | target⟩
      · trivial
      · exact ⟨by omega, by omega⟩
      · obtain ⟨label, hfind⟩ := Machine.exec_jump hexec
        exact hlabels label target hfind

/-- **A walk stays in range**, if labels mean lines in range at its start. -/
theorem Machine.walk_inRange {m₀ : Machine}
    (hlabels : ∀ label target, m₀.labels.find? label = some target →
      1 ≤ target ∧ target ≤ p.size + 1) (n : Nat) :
    (m₀.walk conf p n).InRange p := by
  induction n with
  | zero => exact ⟨Int.le_refl 1, by omega⟩
  | succ n ih =>
    rw [Machine.walk_succ rfl]
    refine Position.next_inRange ih fun label target hfind => hlabels label target ?_
    rwa [← walk_labels conf p m₀ n]

/-! ## Fresh machines -/

theorem Machine.start_labels (p : Program) (stdin : Text) (room : Option Nat) (label : Text) :
    (Machine.start p stdin room).labels.find? label =
      (p.labels.find? label).map fun (n : Nat) => (n : Int) :=
  Table.find?_mapValues _ p.labels label

/-- **The tables of labels are coherent and jumps land on the last definition.** Of a loaded program,
the tables agree with the lines. A run of a fresh machine is a walk from line to line that stays on
the lines `1` to `p.size + 1`. Whenever it takes a branch, it goes to the last line that carries the
label, which has a statement; if no line carries it, the run stops there. -/
theorem labels_coherent_and_jumps_land {name src : Text} {p : Program}
    (hload : Program.load name src = .ok p) :
    p.Coherent ∧ ∀ (conf : Settings) (stdin : Text) (room : Option Nat),
      (∀ m' e, (e ≠ .unfinished ∧
          ∃ fuel, Machine.run conf p fuel 1 (Machine.start p stdin room) = (m', e)) ↔
        ∃ k printed, (Machine.start p stdin room).walk conf p k = .ended e m' printed) ∧
      ∀ k line m printed,
        (Machine.start p stdin room).walk conf p k = .arriving line m printed →
          (1 ≤ line ∧ line ≤ p.size + 1) ∧
          ∀ s label, Machine.Takes conf p line m s label →
            (∃ target : Nat, IsGreatest (p.carriers label) target ∧
              (∃ s', p.stmt? target = some s') ∧
              (Machine.start p stdin room).walk conf p (k + 1) =
                .arriving target (m.begin conf s) printed) ∨
            (p.carriers label = ∅ ∧
              (Machine.start p stdin room).walk conf p (k + 1) =
                .ended (.stopped (.failed ⟨line, .illegalGoto label⟩)) (m.begin conf s)
                  printed) := by
  have hcoherent := Program.coherent_of_load hload
  refine ⟨hcoherent, fun conf stdin room => ⟨fun m' e => Machine.run_iff_walk, ?_⟩⟩
  intro k line m printed hwalk
  constructor
  · have hrange : ((Machine.start p stdin room).walk conf p k).InRange p := by
      refine Machine.walk_inRange (fun label target hfind => ?_) k
      rw [Machine.start_labels] at hfind
      obtain ⟨n, hn, rfl⟩ := Option.map_eq_some_iff.mp hfind
      have := Program.labels_bounds hn
      omega
    rw [hwalk] at hrange
    exact hrange
  · intro s label htakes
    have hlabels : m.labels = (Machine.start p stdin room).labels := by
      have h := walk_labels conf p (Machine.start p stdin room) k
      rwa [hwalk] at h
    have hfind := Machine.start_labels p stdin room label
    rw [← hlabels] at hfind
    rw [Machine.walk_succ hwalk]
    cases hlabel : p.labels.find? label with
    | some target =>
      rw [hlabel] at hfind
      have hgreatest := (hcoherent.last label target).mp hlabel
      exact .inl ⟨target, hgreatest, (hcoherent.labelled target label hgreatest.1).2,
        htakes.next_jump hfind printed⟩
    | none =>
      rw [hlabel] at hfind
      refine .inr ⟨Program.labels_find?_eq_none.mp hlabel, ?_⟩
      rw [htakes.next_undefined hfind printed, hcoherent.line line s htakes.stmt]

/-- A label on lines 1 and 4: the branch on line 3 goes to line 4. -/
theorem labels_coherent_and_jumps_land_redefined :
    ∃ p m printed,
      Program.load "jumps" ("a: let x = 1\n\nif x goto a\na: print x\n" : Text) = .ok p ∧
        p.redefined.find? "a" = some [1, 4] ∧ IsGreatest (p.carriers "a") 4 ∧
        (Machine.start p [] none).walk {} p 3 = .arriving 4 m printed := by
  have hload : Program.load "jumps" ("a: let x = 1\n\nif x goto a\na: print x\n" : Text) =
      .ok ⟨"jumps", #[⟨some "a", some ⟨1, .assign "x" (.number "1")⟩⟩, .blank,
        ⟨none, some ⟨3, .branch (.var "x") "a"⟩⟩,
        ⟨some "a", some ⟨4, .print [.value (.var "x")]⟩⟩]⟩ := rfl
  obtain ⟨hcoherent, hruns⟩ := labels_coherent_and_jumps_land hload
  obtain ⟨-, hjump⟩ := (hruns {} [] none).2 2 3 _ [] rfl
  have hlast := (hcoherent.last "a" 4).mp rfl
  rcases hjump _ "a" ⟨rfl, rfl, .var "x", _, rfl, rfl, rfl⟩ with
    ⟨target, htarget, -, hwalk⟩ | ⟨hnone, -⟩
  · obtain rfl := htarget.unique hlast
    exact ⟨_, _, _, hload, rfl, hlast, hwalk⟩
  · exact absurd hlast.1 (by rw [hnone]; exact Set.notMem_empty _)

end TinyLang
