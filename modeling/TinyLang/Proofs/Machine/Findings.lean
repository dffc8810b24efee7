import TinyLang.Proofs.Machine.Perform
import TinyLang.Proofs.Program.Findings

/-!
# Findings and runs

Findings are made without running a program. Here they are compared with all its runs, on any input
and with any settings.

* `Expr.lookups`, `Action.lookups`: the variables that an evaluation looks up, in order, until it
  stops. `perform_undefined_iff` says that a statement stops at an undefined variable exactly if its
  evaluation comes to it, and `perform_illegalGoto` when it stops at a label.
* `walk_vars`: along a walk only variables that some line assigns have values.
* `findings_sound`: the headline. A run that stops at a label stops where a finding says so. A
  variable that a finding calls unassigned never has a value, and whatever looks it up stops. A run
  that stops at a variable has a finding for it before, or there is a line that assigns the
  variable.
-/

namespace TinyLang

/-! ## What an evaluation looks up -/

/-- The variables that the evaluation of an expression looks up, in order. -/
def Expr.lookups (vars : Table Number) (line : Int) : Expr → List Text
  | .var name => [name]
  | .binary _ left right =>
    left.lookups vars line ++
      match left.eval vars line with
      | .ok _ => right.lookups vars line
      | .error _ => []
  | _ => []

/-- The variables that the evaluation of a print list looks up, in order. -/
def lookupsOf (vars : Table Number) (line : Int) : List PrintItem → List Text
  | [] => []
  | .literal _ :: items => lookupsOf vars line items
  | .value e :: items =>
    e.lookups vars line ++
      match e.eval vars line with
      | .ok _ => lookupsOf vars line items
      | .error _ => []

/-- The variables that performing an action looks up, in order. -/
def Action.lookups (vars : Table Number) (line : Int) : Action → List Text
  | .assign _ e => e.lookups vars line
  | .branch c _ => c.lookups vars line
  | .print items => lookupsOf vars line items
  | .input _ => []

/-- The reason to stop at a variable without a value. -/
def undefinedAt (line : Int) (name : Text) : Stop := .failed ⟨line, .undefinedVariable name⟩

section Lookups

variable {vars : Table Number} {line n : Int} {name : Text}

/-- **An evaluation stops at a variable** exactly if it comes to look it up and finds no value. -/
theorem Expr.eval_undefined_iff {e : Expr} :
    e.eval vars line = .error (undefinedAt n name) ↔
      n = line ∧ name ∈ e.lookups vars line ∧ vars.find? name = none := by
  induction e with
  | var x =>
    rw [Expr.eval, Expr.lookups, List.mem_singleton]
    cases hfind : vars.find? x with
    | some v =>
      refine ⟨nofun, ?_⟩
      rintro ⟨-, rfl, hnone⟩
      rw [hfind] at hnone
      cases hnone
    | none =>
      constructor
      · rintro ⟨⟩
        exact ⟨rfl, rfl, hfind⟩
      · rintro ⟨rfl, rfl, -⟩
        rfl
  | number t =>
    rw [Expr.eval]
    cases Number.read? t <;> exact ⟨nofun, nofun⟩
  | quotation t => exact ⟨nofun, nofun⟩
  | hole => exact ⟨nofun, nofun⟩
  | binary op left right ihl ihr =>
    rw [Expr.lookups, List.mem_append]
    cases hl : left.eval vars line with
    | error stop =>
      simp only [Expr.eval, hl, bind, Except.bind, List.not_mem_nil, or_false]
      rw [← ihl, hl]
    | ok x =>
      have hleft : ¬ (n = line ∧ name ∈ left.lookups vars line ∧ vars.find? name = none) := by
        rw [← ihl, hl]
        exact nofun
      have hboth : n = line ∧ (name ∈ left.lookups vars line ∨ name ∈ right.lookups vars line) ∧
          vars.find? name = none ↔
            n = line ∧ name ∈ right.lookups vars line ∧ vars.find? name = none := by
        tauto
      rw [hboth, ← ihr]
      cases hr : right.eval vars line with
      | error stop => simp only [Expr.eval, hl, hr, bind, Except.bind]
      | ok y =>
        simp only [Expr.eval, hl, hr, bind, Except.bind]
        refine ⟨fun h => ?_, nofun⟩
        split at h
        · cases h
        · split at h <;> cases h

theorem mapM_undefined_iff {items : List PrintItem} :
    items.mapM (PrintItem.eval vars line) = .error (undefinedAt n name) ↔
      n = line ∧ name ∈ lookupsOf vars line items ∧ vars.find? name = none := by
  induction items with
  | nil =>
    constructor
    · rintro ⟨⟩
    · rintro ⟨-, ⟨⟩, -⟩
  | cons item items ih =>
    have hrest : ∀ t : Text, (do let ts ← items.mapM (PrintItem.eval vars line); pure (t :: ts)) =
        Except.error (undefinedAt n name) ↔
          n = line ∧ name ∈ lookupsOf vars line items ∧ vars.find? name = none := by
      intro t
      rw [bind_eq_error, ih]
      refine or_iff_left ?_
      rintro ⟨ts, -, ⟨⟩⟩
    rw [List.mapM_cons]
    cases item with
    | literal t => exact hrest t
    | value e =>
      rw [lookupsOf, List.mem_append]
      cases he : e.eval vars line with
      | error stop =>
        have hstop : (PrintItem.value e).eval vars line = .error stop := by
          simp only [PrintItem.eval, he, bind, Except.bind]
        rw [hstop]
        simp only [List.not_mem_nil, or_false]
        rw [← Expr.eval_undefined_iff, he]
        exact ⟨by rintro ⟨⟩; rfl, by rintro ⟨⟩; rfl⟩
      | ok v =>
        have htext : (PrintItem.value e).eval vars line = .ok v.text := by
          simp only [PrintItem.eval, he, bind, Except.bind]
          rfl
        have hfirst : ¬ (n = line ∧ name ∈ e.lookups vars line ∧ vars.find? name = none) := by
          rw [← Expr.eval_undefined_iff, he]
          rintro ⟨⟩
        rw [htext]
        refine (hrest v.text).trans ?_
        tauto

theorem Expr.lookups_subset (e : Expr) : e.lookups vars line ⊆ e.reads := by
  induction e with
  | var x => exact List.Subset.refl _
  | number t => exact List.nil_subset _
  | quotation t => exact List.nil_subset _
  | hole => exact List.nil_subset _
  | binary op left right ihl ihr =>
    rw [Expr.lookups, Expr.reads]
    refine List.append_subset.2 ⟨List.subset_append_of_subset_left _ ihl, ?_⟩
    split
    · exact List.subset_append_of_subset_right _ ihr
    · exact List.nil_subset _

theorem lookupsOf_subset (items : List PrintItem) :
    lookupsOf vars line items ⊆ (Action.print items).reads := by
  induction items with
  | nil => exact List.nil_subset _
  | cons item items ih =>
    cases item with
    | literal t => exact ih
    | value e =>
      rw [lookupsOf]
      refine List.append_subset.2 ⟨List.subset_append_of_subset_left _ e.lookups_subset, ?_⟩
      split
      · exact List.subset_append_of_subset_right _ ih
      · exact List.nil_subset _

/-- What an action looks up it reads. -/
theorem Action.lookups_subset (a : Action) : a.lookups vars line ⊆ a.reads := by
  cases a with
  | assign target e => exact e.lookups_subset
  | branch c label => exact c.lookups_subset
  | print items => exact lookupsOf_subset items
  | input target => exact List.nil_subset _

/-- An evaluation does not stop at a label. -/
theorem Expr.eval_ne_illegalGoto (e : Expr) (label : Text) :
    e.eval vars line ≠ .error (.failed ⟨n, .illegalGoto label⟩) := by
  induction e with
  | var x =>
    rw [Expr.eval]
    cases vars.find? x <;> exact nofun
  | number t =>
    rw [Expr.eval]
    cases Number.read? t <;> exact nofun
  | quotation t => exact nofun
  | hole => exact nofun
  | binary op left right ihl ihr =>
    rw [Expr.eval]
    intro h
    rcases bind_eq_error.1 h with h | ⟨x, -, h⟩
    · exact ihl h
    rcases bind_eq_error.1 h with h | ⟨y, -, h⟩
    · exact ihr h
    split at h
    · cases h
    · split at h <;> cases h

theorem mapM_ne_illegalGoto (items : List PrintItem) (label : Text) :
    items.mapM (PrintItem.eval vars line) ≠ .error (.failed ⟨n, .illegalGoto label⟩) := by
  intro h
  obtain ⟨item, -, hitem⟩ := exists_of_mapM_error h
  cases item with
  | literal t => cases hitem
  | value e =>
    rcases bind_eq_error.1 hitem with h | ⟨v, -, ⟨⟩⟩
    exact e.eval_ne_illegalGoto label h

end Lookups

namespace Machine

variable {m m' : Machine} {prompt : Text} {line n : Int} {a : Action} {name : Text}

theorem printed_eq_error {items : List PrintItem} {stop : Stop} :
    m.printed line items = .error stop ↔ items.mapM (PrintItem.eval m.vars line) = .error stop := by
  unfold printed printedText
  exact bind_pure_eq_error

theorem write_stop {t : Text} {stop : Stop} (h : m.write t = (m', .error stop)) :
    stop = .outputFull := by
  simp only [write, Prod.mk.injEq] at h
  obtain ⟨-, h⟩ := h
  split at h <;> cases h
  rfl

theorem ask_stop {stop : Stop} (h : m.ask prompt = (m', .error stop)) : stop = .outputFull := by
  rw [ask_def] at h
  split at h
  · cases h
  · exact write_stop h

theorem readNumber_stop {stop : Stop} (h : m.readNumber line = (m', .error stop)) :
    stop = .failed ⟨line, .badInput⟩ := by
  unfold readNumber at h
  split at h
  · cases h
    rfl
  · simp only [Prod.mk.injEq] at h
    obtain ⟨-, h⟩ := h
    split at h <;> cases h
    rfl

/-- A statement that reads input stops when the prompt does not fit or the input is bad. -/
theorem perform_input_stop {target : Text} {stop : Stop}
    (h : m.perform prompt line (.input target) = (m', .error stop)) :
    stop = .outputFull ∨ stop = .failed ⟨line, .badInput⟩ := by
  rw [perform_input] at h
  rcases hask : m.ask prompt with ⟨m₁, stop₁ | _⟩ <;> rw [hask] at h
  · cases h
    exact .inl (ask_stop hask)
  · dsimp only at h
    rcases hread : m₁.readNumber line with ⟨m₂, stop₂ | v⟩ <;> rw [hread] at h <;> cases h
    exact .inr (readNumber_stop hread)

/-- A statement that prints stops when an item has no value or the line does not fit. -/
theorem perform_print_stop {items : List PrintItem} {stop : Stop}
    (h : m.perform prompt line (.print items) = (m', .error stop)) :
    m' = m ∧ m.printed line items = .error stop ∨ stop = .outputFull := by
  rw [perform_print] at h
  cases hprinted : m.printed line items with
  | error stop' =>
    rw [hprinted] at h
    cases h
    exact .inl ⟨rfl, rfl⟩
  | ok text =>
    rw [hprinted] at h
    dsimp only at h
    rcases hwrite : m.write text with ⟨m₁, stop₁ | _⟩ <;> rw [hwrite] at h <;> cases h
    exact .inr (write_stop hwrite)

/-- **A statement stops at a variable** exactly if its evaluation comes to look the variable up and
finds no value. Nothing has changed then. -/
theorem perform_undefined_iff :
    m.perform prompt line a = (m', .error (undefinedAt n name)) ↔
      m' = m ∧ n = line ∧ name ∈ a.lookups m.vars line ∧ m.vars.find? name = none := by
  cases a with
  | assign target e =>
    rw [perform_assign, Action.lookups, ← Expr.eval_undefined_iff]
    cases e.eval m.vars line with
    | ok v => simp
    | error stop => simp [eq_comm]
  | branch c label =>
    rw [perform_branch, Action.lookups, ← Expr.eval_undefined_iff]
    cases c.eval m.vars line with
    | error stop => simp [eq_comm]
    | ok v =>
      refine ⟨fun h => ?_, by rintro ⟨-, ⟨⟩⟩⟩
      dsimp only at h
      split at h
      · split at h <;> cases h
      · cases h
  | print items =>
    rw [Action.lookups, ← mapM_undefined_iff, ← printed_eq_error]
    constructor
    · intro h
      refine (perform_print_stop h).resolve_right ?_
      rintro ⟨⟩
    · rintro ⟨rfl, h⟩
      simp only [perform_print, h]
  | input target =>
    refine ⟨fun h => ?_, by rintro ⟨-, -, ⟨⟩, -⟩⟩
    rcases perform_input_stop h with ⟨⟨⟩⟩ | ⟨⟨⟩⟩

/-- A statement stops at a label only if it jumps to it and the label means no line. -/
theorem perform_illegalGoto {label : Text}
    (h : m.perform prompt line a = (m', .error (.failed ⟨n, .illegalGoto label⟩))) :
    n = line ∧ a.goto? = some label ∧ m.labels.find? label = none := by
  cases a with
  | assign target e =>
    rw [perform_assign] at h
    cases he : e.eval m.vars line with
    | ok v => simp [he] at h
    | error stop =>
      simp only [he, Prod.mk.injEq, Except.error.injEq] at h
      exact absurd (h.2 ▸ he) (e.eval_ne_illegalGoto label)
  | branch c target =>
    rw [perform_branch] at h
    cases hc : c.eval m.vars line with
    | error stop =>
      simp only [hc, Prod.mk.injEq, Except.error.injEq] at h
      exact absurd (h.2 ▸ hc) (c.eval_ne_illegalGoto label)
    | ok v =>
      simp only [hc] at h
      split at h
      · cases hfind : m.labels.find? target with
        | some l =>
          rw [hfind] at h
          cases h
        | none =>
          rw [hfind] at h
          cases h
          exact ⟨rfl, rfl, hfind⟩
      · cases h
  | print items =>
    rcases perform_print_stop h with ⟨-, h⟩ | ⟨⟨⟩⟩
    exact absurd (printed_eq_error.1 h) (mapM_ne_illegalGoto items label)
  | input target => rcases perform_input_stop h with ⟨⟨⟩⟩ | ⟨⟨⟩⟩

end Machine

/-! ## Along a run -/

section Runs

variable {conf : Settings} {p : Program} {m₀ : Machine}

/-- A variable that no line assigns never gets a value. -/
theorem walk_vars {name : Text} (h₀ : m₀.vars.find? name = none)
    (h : ∀ line s, p.stmt? line = some s → s.action.target? ≠ some name) (n : Nat) :
    (m₀.walk conf p n).machine.vars.find? name = none := by
  refine Position.iterate_induction (P := fun m => m.vars.find? name = none)
    (fun line s m hs hm => ?_) (.arriving 1 m₀ []) h₀ n
  rw [((m.begin conf s).exec_effect conf s).find? (h line s hs)]
  exact hm

/-- A run that stops does so at a statement that its walk comes to. -/
theorem run_stopped_at {fuel : Nat} {stop : Stop} {m' : Machine}
    (h : Machine.run conf p fuel 1 m₀ = (m', .stopped stop)) :
    ∃ k line m printed s, m₀.walk conf p k = .arriving line m printed ∧ p.stmt? line = some s ∧
      (m.begin conf s).exec conf s = (m', .error stop) := by
  obtain ⟨k, printed, hk⟩ := Machine.run_walks h nofun
  exact Position.stopped_at ⟨_, _, _, rfl⟩ hk

end Runs

/-- **Findings are sound for every run** of a loaded program, on any input and with any settings. A
run that stops at a label stops on a line with a finding for that label. A variable with a finding
has a value at no time, and a statement whose evaluation looks it up stops the run there. If a run
stops at a variable, then there is a finding for it on that line or before, or some line assigns
it. -/
theorem findings_sound {name src : Text} {p : Program} (hload : Program.load name src = .ok p)
    (conf : Settings) (stdin : Text) (room : Option Nat) :
    (∀ fuel m n label, Machine.run conf p fuel 1 (.start p stdin room) =
        (m, .stopped (.failed ⟨n, .illegalGoto label⟩)) →
      ∃ k : Nat, n = k ∧ ⟨k, .missingLabel label⟩ ∈ p.findings) ∧
    (∀ k x, ⟨k, .unassigned x⟩ ∈ p.findings →
      (∀ i, ((Machine.start p stdin room).walk conf p i).machine.vars.find? x = none) ∧
      ∀ i line m printed s, (Machine.start p stdin room).walk conf p i = .arriving line m printed →
        p.stmt? line = some s → m.atLimit conf = false → x ∈ s.action.lookups m.vars line →
          ∃ fuel, Machine.run conf p fuel 1 (.start p stdin room) =
            (m.begin conf s, .stopped (undefinedAt line x))) ∧
    ∀ fuel m n x, Machine.run conf p fuel 1 (.start p stdin room) =
        (m, .stopped (undefinedAt n x)) →
      (∃ k : Nat, (k : Int) ≤ n ∧ ⟨k, .unassigned x⟩ ∈ p.findings) ∨
        ∃ line s, p.stmt? line = some s ∧ s.action.target? = some x := by
  have hnat : ∀ {line : Int} {s : Stmt}, p.stmt? line = some s → ∃ k : Nat, line = k := by
    intro line s hs
    have := (Program.stmt?_le_size hs).1
    exact ⟨line.toNat, by omega⟩
  have hnever : ∀ k x, ⟨k, .unassigned x⟩ ∈ p.findings → ∀ i,
      ((Machine.start p stdin room).walk conf p i).machine.vars.find? x = none := by
    intro k x hfinding i
    refine walk_vars rfl (fun line s hs => ?_) i
    obtain ⟨j, rfl⟩ := hnat hs
    exact Program.not_assigned hfinding hs
  refine ⟨fun fuel m n label hrun => ?_, fun k x hfinding => ⟨?_, ?_⟩, fun fuel m n x hrun => ?_⟩
  · obtain ⟨i, line, m₁, printed, s, hwalk, hs, hexec⟩ := run_stopped_at hrun
    obtain ⟨hline, hgoto, hlabel⟩ := Machine.perform_illegalGoto hexec
    obtain ⟨k, rfl⟩ := hnat hs
    rw [(Program.load_stmt? hload hs).1] at hline
    refine ⟨k, hline, Program.missingLabel_mem hs hgoto ?_⟩
    -- the label means no line in the machine, whose labels are those of the program
    have hlabels := walk_labels conf p (.start p stdin room) i
    rw [hwalk] at hlabels
    have hfind : m₁.labels.find? label = none := hlabel
    rw [show m₁.labels = p.labels.mapValues fun (line : Nat) => (line : Int) from hlabels] at hfind
    rwa [Table.find?_mapValues, Option.map_eq_none_iff] at hfind
  · exact hnever k x hfinding
  · intro i line m printed s hwalk hs hlimit hlookup
    have hnone := hnever k x hfinding i
    have hsize := (Program.stmt?_le_size hs).2
    rw [hwalk] at hnone
    have hexec : (m.begin conf s).exec conf s = (m.begin conf s, .error (undefinedAt line x)) := by
      refine Machine.perform_undefined_iff.2 ⟨rfl, ?_, ?_, hnone⟩
      · exact (Program.load_stmt? hload hs).1.symm
      · rwa [(Program.load_stmt? hload hs).1]
    have hend : (Machine.start p stdin room).walk conf p (i + 1) =
        .ended (.stopped (undefinedAt line x)) (m.begin conf s) printed := by
      rw [Machine.walk, Function.iterate_succ_apply']
      rw [Machine.walk] at hwalk
      rw [hwalk, Position.next_statement (by omega) hs hlimit, Position.after, hexec]
    exact (Machine.walk_runs hend).2
  · obtain ⟨i, line, m₁, printed, s, hwalk, hs, hexec⟩ := run_stopped_at hrun
    obtain ⟨-, hline, hlookup, -⟩ := Machine.perform_undefined_iff.1 hexec
    obtain ⟨k, rfl⟩ := hnat hs
    rw [(Program.load_stmt? hload hs).1] at hline
    by_cases hassigned : ∃ line s, p.stmt? line = some s ∧ s.action.target? = some x
    · exact .inr hassigned
    · obtain ⟨j, hj, hmem⟩ := Program.unassigned_mem hs (Action.lookups_subset _ hlookup)
        fun k' s' hs' htarget => hassigned ⟨k', s', hs', htarget⟩
      exact .inl ⟨j, by omega, hmem⟩

/-- A program that stops at a label on one input and at a variable on another, with a finding for
each. -/
theorem findings_sound_branch :
    ∃ p, Program.load "branch" "input x\nif x goto nowhere\nprint x, lost\n" = .ok p ∧
      (∃ m, Machine.run {} p 3 1 (.start p "1\n" none) =
          (m, .stopped (.failed ⟨2, .illegalGoto "nowhere"⟩)) ∧
        ∃ k : Nat, (2 : Int) = k ∧ ⟨k, .missingLabel "nowhere"⟩ ∈ p.findings) ∧
      (∃ m, Machine.run {} p 3 1 (.start p "0\n" none) = (m, .stopped (undefinedAt 3 "lost")) ∧
        ((∃ k : Nat, (k : Int) ≤ 3 ∧ ⟨k, .unassigned "lost"⟩ ∈ p.findings) ∨
          ∃ line s, p.stmt? line = some s ∧ s.action.target? = some "lost")) ∧
      ⟨3, .unassigned "lost"⟩ ∈ p.findings ∧
      ∀ i, ((Machine.start p "0\n" none).walk {} p i).machine.vars.find? "lost" = none := by
  let p : Program := ⟨"branch", #[⟨none, some ⟨1, .input "x"⟩⟩,
    ⟨none, some ⟨2, .branch (.var "x") "nowhere"⟩⟩,
    ⟨none, some ⟨3, .print [.value (.var "x"), .value (.var "lost")]⟩⟩]⟩
  have hload : Program.load "branch" "input x\nif x goto nowhere\nprint x, lost\n" = .ok p := rfl
  have hgoto : (Machine.run {} p 3 1 (.start p "1\n" none)).2 =
      .stopped (.failed ⟨2, .illegalGoto "nowhere"⟩) := by decide +kernel
  have hlost : (Machine.run {} p 3 1 (.start p "0\n" none)).2 = .stopped (undefinedAt 3 "lost") := by
    decide +kernel
  have hfinding : ⟨3, .unassigned "lost"⟩ ∈ p.findings := by decide +kernel
  obtain ⟨hlabel, -, -⟩ := findings_sound hload {} "1\n" none
  obtain ⟨-, hvariable, hstop⟩ := findings_sound hload {} "0\n" none
  exact ⟨p, hload, ⟨_, Prod.ext rfl hgoto, hlabel 3 _ _ _ (Prod.ext rfl hgoto)⟩,
    ⟨_, Prod.ext rfl hlost, hstop 3 _ _ _ (Prod.ext rfl hlost)⟩, hfinding,
    (hvariable 3 "lost" hfinding).1⟩

end TinyLang
