import TinyLang.Proofs.Code.Routine
import Mathlib.Algebra.Group.Nat.Defs

/-!
# Compiling preserves meaning

A program and its compiled module, on the same input, side by side: the walk of the program from
line to line and the run of the module from block to block.

* `Tracks` relates a position of the walk to a place of the run, and `Tracks.step` says that one
  line of the walk is one or more blocks of the run, of which only the first belongs to a line.
* `exists_tracks`: every position of a walk is tracked, and up to there the lines visited are the
  line blocks entered.
* `compile_preserves_meaning`: the headline. The walk and the run visit the same lines, with the
  same variables and the same lines printed, and they end in the same way or not at all.
-/

namespace TinyLang

/-- How code ends where a run ends. -/
def Ending.halt? : Ending → Option Code.Halt
  | .finished => some .returned
  | .stopped stop => stop.halt?
  | .cut _ _ => none
  | .unfinished => none

namespace Code

/-! ## Counting blocks -/

section Visits

variable {M : Module} {input : Nat → Option Number}

theorem Module.config_succ (n : Nat) :
    M.config input (n + 1) = M.step input (M.config input n) :=
  Function.iterate_succ_apply' _ _ _

theorem Module.visits_succ (n : Nat) :
    M.visits input (n + 1) = M.visits input n ++ (M.config input n).visit?.toList :=
  filterMap_range_succ _ n

theorem Module.visits_prefix (M : Module) (input : Nat → Option Number) {n n' : Nat} (h : n ≤ n') :
    M.visits input n <+: M.visits input n' := by
  obtain ⟨d, rfl⟩ := Nat.exists_eq_add_of_le h
  unfold Module.visits
  rw [List.range_add, List.filterMap_append]
  exact List.prefix_append _ _

/-- Of the blocks that lead from one place to another, only the first can belong to a line. -/
theorem Leads.visits {c c' : Config} (h : Leads M input c c') {n : Nat}
    (hc : M.config input n = c) :
    ∃ n', n < n' ∧ M.config input n' = c' ∧
      M.visits input n' = M.visits input n ++ c.visit?.toList := by
  induction h generalizing n with
  | last hstep => exact ⟨n + 1, Nat.lt_succ_self n, by rw [Module.config_succ, hc, hstep],
      by rw [Module.visits_succ, hc]⟩
  | more hstep hnone _ ih =>
    obtain ⟨n', hlt, hconfig, hvisits⟩ := ih (by rw [Module.config_succ, hc, hstep])
    refine ⟨n', Nat.lt_of_succ_lt hlt, hconfig, ?_⟩
    rw [hvisits, Module.visits_succ, hc, hnone, Option.toList_none, List.append_nil]

theorem Module.config_of_ended {n k : Nat} {halt : Halt} {s : State} (hnk : n ≤ k)
    (h : M.config input n = .ended halt s) : M.config input k = .ended halt s := by
  obtain ⟨d, rfl⟩ := Nat.exists_eq_add_of_le hnk
  unfold Module.config at h ⊢
  rw [Nat.add_comm, Function.iterate_add_apply, h]
  exact Function.iterate_fixed rfl d

end Visits

/-! ## Walk and run side by side -/

/-- A place of the run against a position of the walk. -/
def Tracks (p : Program) (input : Nat → Option Number) : Position → Config → Prop
  | .arriving line m printed, c => ∃ (n : Nat) (s : State), line = n ∧ 1 ≤ n ∧
      c = .entering ((namesOf p).block n) s ∧ Matches (namesOf p) input m printed s
  | .ended e _ printed, c => ∃ halt s, c = .ended halt s ∧ e.halt? = some halt ∧ s.lines = printed

variable {p : Program} {M : Module} {input : Nat → Option Number} {conf : Settings}

theorem block_inside {n : Nat} (h1 : 1 ≤ n) (h : n ≤ p.size) : (namesOf p).block n = .line n := by
  have : (namesOf p).size = p.size := rfl
  simp [Names.block, this]
  omega

theorem block_past {n : Nat} (h : p.size < n) : (namesOf p).block n = .exit := by
  have : (namesOf p).size = p.size := rfl
  simp [Names.block, this]
  omega

theorem lineWord_of_lt {n : Nat} (h : n < 2 ^ 31) : lineWord n = n := by
  unfold lineWord
  rw [BitVec.toInt_eq_toNat_of_lt (by rw [BitVec.toNat_ofNat]; omega), BitVec.toNat_ofNat]
  omega

theorem Matches.begin {ns : Names} {m : Machine} {printed : List (List Item)} {s : State}
    (h : Matches ns input m printed s) (conf : Settings) (stmt : Stmt) :
    Matches ns input (m.begin conf stmt) printed s where
  vars := h.vars
  labels := h.labels
  room := h.room
  input := fun k => (h.input k).trans (Machine.delivered_congr (by rfl) k)
  items := h.items
  lines := h.lines

/-- What one statement does, in the walk and in the run. -/
theorem Answers.tracks {n : Nat} {stmt : Stmt} {m : Machine} {printed : List (List Item)}
    {c : Config}
    (h : Answers (namesOf p) input n printed (stmt.printedLines m.vars) c
      ((m.begin conf stmt).exec conf stmt)) :
    Tracks p input (Position.after conf n stmt m printed) c := by
  unfold Position.after
  rcases hx : (m.begin conf stmt).exec conf stmt with ⟨m', stop | flow⟩
  · rw [hx] at h
    obtain ⟨halt, s, hc, hlines, hstop⟩ := h
    exact ⟨halt, s, hc, hstop, hlines⟩
  · rw [hx] at h
    cases flow with
    | next => exact h
    | jump target => exact h

/-- **One line.** The run follows the walk by one or more blocks. -/
theorem Tracks.step (hM : Compiled p M) (hsize : p.size < 2 ^ 31)
    (hline : ∀ (i : Nat) s, p.stmt? (i + 1 : Nat) = some s → s.line = (i + 1 : Nat))
    (hlimit : conf.limit ≤ 0) {x : Position} {c : Config} (h : Tracks p input x c) :
    ∃ c', Leads M input c c' ∧ Tracks p input (Position.next conf p x) c' := by
  have henv : M.surroundings input = (namesOf p).surroundings input := by
    rw [Module.surroundings, hM.globals]
    rfl
  cases x with
  | ended e m printed =>
    obtain ⟨halt, s, rfl, he, hlines⟩ := h
    exact ⟨_, .last rfl, halt, s, rfl, he, hlines⟩
  | arriving line m printed =>
    obtain ⟨n, s, rfl, h1, rfl, hmatch⟩ := h
    by_cases hpast : p.size < n
    · refine ⟨.ended .returned s, .last ?_, ?_⟩
      · rw [block_past hpast, step_entering hM.exit]
        rfl
      · rw [Position.next_past (by omega)]
        exact ⟨.returned, s, rfl, rfl, hmatch.lines⟩
    obtain ⟨i, rfl⟩ : ∃ i, n = i + 1 := ⟨n - 1, by omega⟩
    rw [block_inside h1 (by omega)]
    cases hs : p.stmt? (i + 1 : Nat) with
    | none =>
      refine ⟨.entering ((namesOf p).block (i + 2)) s, .last ?_, ?_⟩
      · rw [step_entering (hM.blank i (by omega) hs)]
        rfl
      · rw [Position.next_blank (by omega) hs]
        exact ⟨i + 2, s, rfl, by omega, rfl, hmatch⟩
    | some stmt =>
      obtain ⟨reg, aux, r, hr, hblocks⟩ := hM.code i stmt hs
      have hlim : m.atLimit conf = false := by
        have : ¬ 0 < conf.limit := by omega
        simp [Machine.atLimit, this]
      have hnothing : execAll (M.surroundings input) [].reverse s = .ok s := rfl
      refine ⟨_, cutBlocks_leads hblocks hnothing, ?_⟩
      rw [Position.next_statement (by omega) hs hlim, henv]
      obtain ⟨line, action⟩ := stmt
      obtain rfl : line = (i + 1 : Nat) := hline i _ hs
      exact (routineOf_exec hr (namesOf_supplies hs)
        (fun _ _ hl => (Program.labels_bounds hl).1) (hmatch.begin conf _)
        (lineWord_of_lt (by omega))).tracks

theorem Tracks.start (hM : Compiled p M) (stdin : Text) :
    Tracks p (Machine.start p stdin none).delivered (.arriving 1 (Machine.start p stdin none) [])
        (M.config (Machine.start p stdin none).delivered 1) ∧
      M.visits (Machine.start p stdin none).delivered 1 = [] := by
  have hfirst : M.config (Machine.start p stdin none).delivered 1 =
      .entering ((namesOf p).block 1) .start :=
    step_entering hM.entry .start
  refine ⟨⟨1, .start, rfl, Nat.le_refl 1, hfirst, ?_⟩, rfl⟩
  exact
    { vars := fun name => by simp [State.value?, State.start, Machine.start, Table.find?]
      labels := rfl
      room := rfl
      input := fun k => by rw [State.start, Nat.zero_add]
      items := rfl
      lines := rfl }

/-- A visit of the walk and a visit of the run: the same line, the same variables with the same
values, and the same lines printed. With no prompt, these are what has been written. -/
structure Agrees (conf : Settings) (slots : List Text) (v : Int × Machine × List (List Item))
    (w : Nat × State) : Prop where
  line : v.1 = w.1
  vars : ∀ name, w.2.value? slots name = v.2.1.vars.find? name
  lines : w.2.lines = v.2.2
  output : conf.prompt = [] → v.2.1.output.text = w.2.lines.flatMap Item.line

/-- A tracked position is visited exactly if its place is. -/
theorem Tracks.agrees {x : Position} {c : Config} (h : Tracks p input x c)
    (hlog : conf.prompt = [] → x.Logged) :
    List.Forall₂ (Agrees conf (namesOf p).slots) (x.visit? p).toList c.visit?.toList := by
  cases x with
  | ended e m printed =>
    obtain ⟨halt, s, rfl, -⟩ := h
    exact .nil
  | arriving line m printed =>
    obtain ⟨n, s, rfl, h1, rfl, hmatch⟩ := h
    by_cases hle : n ≤ p.size
    · rw [block_inside h1 hle, Position.visit?, if_pos (by omega)]
      refine .cons ⟨rfl, hmatch.vars, hmatch.lines, fun hprompt => ?_⟩ .nil
      rw [hmatch.lines]
      exact (hlog hprompt).2
    · rw [block_past (by omega), Position.visit?, if_neg (by omega)]
      exact .nil

/-- **Every position of a fresh walk is tracked**, and up to there the same lines are visited. -/
theorem exists_tracks (hM : Compiled p M) (hsize : p.size < 2 ^ 31)
    (hline : ∀ (i : Nat) s, p.stmt? (i + 1 : Nat) = some s → s.line = (i + 1 : Nat))
    (hlimit : conf.limit ≤ 0) (stdin : Text) (k : Nat) :
    ∃ n, k < n ∧
      Tracks p (Machine.start p stdin none).delivered ((Machine.start p stdin none).walk conf p k)
        (M.config (Machine.start p stdin none).delivered n) ∧
      List.Forall₂ (Agrees conf (namesOf p).slots) ((Machine.start p stdin none).visits conf p k)
        (M.visits (Machine.start p stdin none).delivered n) := by
  induction k with
  | zero =>
    obtain ⟨htrack, hvisits⟩ := Tracks.start hM stdin
    exact ⟨1, Nat.one_pos, htrack, by rw [hvisits]; exact .nil⟩
  | succ k ih =>
    obtain ⟨n, hlt, htrack, hagree⟩ := ih
    obtain ⟨c', hleads, htrack'⟩ := htrack.step hM hsize hline hlimit
    obtain ⟨n', hlt', rfl, hvisits⟩ := hleads.visits rfl
    refine ⟨n', by omega, ?_, ?_⟩
    · unfold Machine.walk
      rw [Function.iterate_succ_apply']
      exact htrack'
    · rw [Machine.visits_succ, hvisits]
      exact List.rel_append hagree
        (htrack.agrees fun hprompt => Machine.walk_output hprompt stdin k)

/-! ## The headline -/

/-- The end of a run of a program and the end of a run of code: for the same reason and with the
same lines printed. With no prompt, these are what has been written. -/
structure EndsAlike (conf : Settings) (p : Program) (m m' : Machine) (e : Ending) (halt : Halt)
    (s : State) : Prop where
  halt : e.halt? = some halt
  lines : ∃ k, m.walk conf p k = .ended e m' s.lines
  output : conf.prompt = [] → m'.output.text = s.lines.flatMap Item.line

/-- Where the run has ended, the walk has. -/
theorem Tracks.walk_ended {x : Position} {c : Config} (h : Tracks p input x c) {halt : Halt}
    {s : State} (hc : c = .ended halt s) : ∃ e m printed, x = .ended e m printed := by
  cases x with
  | ended e m printed => exact ⟨e, m, printed, rfl⟩
  | arriving line m printed =>
    obtain ⟨n, s', -, -, hentering, -⟩ := h
    rw [hc] at hentering
    cases hentering

/-- A walk that ends and a run that ends, if they are of one program, end alike. -/
theorem EndsAlike.of_tracks {stdin : Text} {k n : Nat} {e : Ending} {m' : Machine}
    {printed : List (List Item)}
    (hwalk : (Machine.start p stdin none).walk conf p k = .ended e m' printed)
    (htrack : Tracks p input ((Machine.start p stdin none).walk conf p k) (M.config input n)) :
    ∃ halt s, M.config input n = .ended halt s ∧
      EndsAlike conf p (Machine.start p stdin none) m' e halt s := by
  rw [hwalk] at htrack
  obtain ⟨halt, s, hc, he, rfl⟩ := htrack
  refine ⟨halt, s, hc, he, ⟨k, hwalk⟩, fun hprompt => ?_⟩
  have hlog := Machine.walk_output (p := p) hprompt stdin k
  rw [hwalk] at hlog
  exact hlog.2

/-- A program and a module have the same meaning on an input. -/
structure SameMeaning (conf : Settings) (p : Program) (M : Module) (stdin : Text) : Prop where
  /-- The lines that the program has visited at any time are the blocks entered at some time. -/
  visited : ∀ k, ∃ n, List.Forall₂ (Agrees conf (slotNamesOf M.globals))
    ((Machine.start p stdin none).visits conf p k)
    (M.visits (Machine.start p stdin none).delivered n)
  /-- The blocks that the module has entered at any time are the lines visited at some time. -/
  entered : ∀ n, ∃ k, List.Forall₂ (Agrees conf (slotNamesOf M.globals))
    ((Machine.start p stdin none).visits conf p k)
    (M.visits (Machine.start p stdin none).delivered n)
  /-- If the program ends, the module ends alike. -/
  ends : ∀ fuel m e, Machine.run conf p fuel 1 (Machine.start p stdin none) = (m, e) →
    e ≠ .unfinished → ∃ n halt s,
      M.config (Machine.start p stdin none).delivered n = .ended halt s ∧
        EndsAlike conf p (Machine.start p stdin none) m e halt s
  /-- If the module ends, the program ends alike. -/
  ended : ∀ n halt s, M.config (Machine.start p stdin none).delivered n = .ended halt s →
    ∃ fuel m e, Machine.run conf p fuel 1 (Machine.start p stdin none) = (m, e) ∧
      EndsAlike conf p (Machine.start p stdin none) m e halt s

/-- **Compiling preserves meaning.** A loaded program compiles. On any input and without a limit,
its run and the run of its module visit the same lines in the same order, in each of them with the
same variables and the same lines printed; and if one of the two ends, the other ends alike. -/
theorem compile_preserves_meaning {name src : Text} {p : Program}
    (hload : Program.load name src = .ok p) (hsize : p.size < 2 ^ 31) :
    ∃ M, compile p = .ok M ∧
      ∀ (conf : Settings) (stdin : Text), conf.limit ≤ 0 → SameMeaning conf p M stdin := by
  have hstmt : ∀ (i : Nat) s, p.stmt? (i + 1 : Nat) = some s →
      s.line = (i + 1 : Nat) ∧ s.action.Sound := by
    intro i s hs
    obtain ⟨-, slot, hslot, hslots⟩ := Program.stmt?_eq_some.mp hs
    rw [Int.toNat_natCast, Nat.add_sub_cancel] at hslot
    exact Program.load_stmt hload hslot hslots
  obtain ⟨M, hcompile, hM⟩ := compile_blocks fun i s hs => (hstmt i s hs).2
  refine ⟨M, hcompile, fun conf stdin hlimit => ?_⟩
  have hall := exists_tracks hM hsize (fun i s hs => (hstmt i s hs).1) hlimit stdin
  have hslots : slotNamesOf M.globals = (namesOf p).slots := by
    rw [hM.globals]
    rfl
  refine ⟨fun k => ?_, fun n => ?_, fun fuel m' e hrun hne => ?_, fun n halt s hend => ?_⟩
  · obtain ⟨n, -, -, hagree⟩ := hall k
    exact ⟨n, hslots ▸ hagree⟩
  · -- by the `n`-th line of the walk, the run is past its `n`-th block
    obtain ⟨n', hlt, -, hagree⟩ := hall n
    have hprefix := M.visits_prefix (Machine.start p stdin none).delivered (Nat.le_of_lt hlt)
    have htake :=
      List.forall₂_take (M.visits (Machine.start p stdin none).delivered n).length hagree
    rw [← List.prefix_iff_eq_take.mp hprefix] at htake
    obtain ⟨k, hk⟩ := Machine.exists_visits_take conf p (Machine.start p stdin none) n
      (M.visits (Machine.start p stdin none).delivered n).length
    rw [hk] at htake
    exact ⟨k, hslots ▸ htake⟩
  · obtain ⟨k, printed, hwalk⟩ := Machine.run_walks hrun hne
    obtain ⟨n, -, htrack, -⟩ := hall k
    obtain ⟨halt, s, hc, halike⟩ := EndsAlike.of_tracks hwalk htrack
    exact ⟨n, halt, s, hc, halike⟩
  · obtain ⟨n', hlt, htrack, -⟩ := hall n
    have hend' := Module.config_of_ended (Nat.le_of_lt hlt) hend
    obtain ⟨e, m', printed, hwalk⟩ := htrack.walk_ended hend'
    obtain ⟨halt', s', hc, halike⟩ := EndsAlike.of_tracks hwalk htrack
    rw [hend'] at hc
    cases hc
    obtain ⟨-, fuel, hrun⟩ := Machine.walk_runs hwalk
    exact ⟨fuel, m', e, hrun, halike⟩

/-- A loop that asks, divides and compares, and a jump to a label that no line carries. -/
theorem compile_preserves_meaning_halving :
    ∃ p M, Program.load "halving"
        "again: input x\nprint \"half\", x / 2\nif x < 9 goto again\nif x goto nowhere\n" = .ok p ∧
      p.size = 4 ∧ compile p = .ok M ∧ SameMeaning {} p M "8\n9\n" := by
  have hload : Program.load "halving"
      "again: input x\nprint \"half\", x / 2\nif x < 9 goto again\nif x goto nowhere\n" =
        .ok ⟨"halving", #[⟨some "again", some ⟨1, .input "x"⟩⟩,
          ⟨none, some ⟨2, .print [.literal "half",
            .value (.binary .div (.var "x") (.number "2"))]⟩⟩,
          ⟨none, some ⟨3, .branch (.binary .less (.var "x") (.number "9")) "again"⟩⟩,
          ⟨none, some ⟨4, .branch (.var "x") "nowhere"⟩⟩]⟩ := rfl
  obtain ⟨M, hM, hsame⟩ := compile_preserves_meaning hload (by decide)
  exact ⟨_, M, hload, rfl, hM, hsame {} "8\n9\n" (by decide)⟩

end Code

end TinyLang
