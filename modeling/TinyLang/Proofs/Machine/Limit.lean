import TinyLang.Proofs.Machine.Perform

/-!
# The statement limit

A limit on the number of statements cuts a run short and does nothing else. Two runs of one program
are compared here, from the same machine: one with a positive limit, and one whose limit is higher
or that has none.

* `Machine.run_within`: a limited run ends, with no more fuel than its limit.
* `Machine.run_uncut`: a run that is not cut is the longer run too, statement for statement.
* `Machine.run_cut`: a run that is cut has started as many statements as its limit, and the longer
  run goes on from there, at the line of the cut.
* `limit_only_cuts`: both, for runs of a program from its first line.
-/

namespace TinyLang

namespace Machine

/-! ## What is written stays -/

/-- What has been written and traced is still there, at the front. -/
structure Extends (m m' : Machine) : Prop where
  output : m.output.text <+: m'.output.text
  trace : m.trace <:+ m'.trace

theorem Extends.refl (m : Machine) : Extends m m := ⟨List.prefix_rfl, List.suffix_rfl⟩

theorem Extends.trans {m m' m'' : Machine} (h : Extends m m') (h' : Extends m' m'') :
    Extends m m'' := ⟨h.output.trans h'.output, h.trace.trans h'.trace⟩

/-- Statements are traced newest first, and shown oldest first. -/
theorem Extends.traceText {m m' : Machine} (h : Extends m m') (colored : Bool) :
    m.traceText colored <+: m'.traceText colored := by
  obtain ⟨newer, hnewer⟩ := h.trace
  unfold Machine.traceText
  rw [← hnewer, List.reverse_append, List.flatMap_append]
  exact List.prefix_append _ _

variable {conf : Settings} {p : Program}

section Statement

variable {m m' : Machine} {s : Stmt} {result : Except Stop Flow}

theorem steps_statement (h : (m.begin conf s).exec conf s = (m', result)) :
    m'.steps = m.steps + 1 := by
  have hsteps := ((m.begin conf s).exec_effect conf s).steps
  rwa [h] at hsteps

theorem extends_statement (h : (m.begin conf s).exec conf s = (m', result)) : Extends m m' := by
  have heffect := (m.begin conf s).exec_effect conf s
  rw [h] at heffect
  refine ⟨heffect.output, ?_⟩
  rw [heffect.trace]
  unfold Machine.begin
  cases conf.tracing with
  | true => exact List.suffix_cons _ _
  | false => exact List.suffix_rfl

end Statement

variable (conf p) in
/-- **A run only adds** to the output and the trace. -/
theorem run_extends (fuel : Nat) (line : Int) (m : Machine) :
    Extends m (run conf p fuel line m).1 := by
  fun_induction run conf p fuel line m with
  | case1 fuel line m ha => exact .refl m
  | case2 fuel line m n ha => exact .refl m
  | case3 line m n s ha => exact .refl m
  | case4 line m n s ha fuel m' flow hexec ih => exact (extends_statement hexec).trans ih
  | case5 line m n s ha fuel m' stop hexec => exact extends_statement hexec

/-! ## Arriving at a statement -/

theorem atLimit_eq_true {m : Machine} :
    m.atLimit conf = true ↔ 0 < conf.limit ∧ conf.limit ≤ m.steps := by
  simp [atLimit]

theorem atLimit_eq_false (hpos : 0 < conf.limit) {m : Machine} :
    m.atLimit conf = false ↔ m.steps < conf.limit := by
  simp [atLimit, hpos]

theorem arrive_eq_statement {m : Machine} {line : Int} {n : Nat} {s : Stmt} :
    m.arrive conf p line = .statement n s ↔
      p.next? line = some (n, s) ∧ m.atLimit conf = false := by
  unfold arrive
  rcases p.next? line with _ | ⟨n', s'⟩
  · simp
  · cases m.atLimit conf <;> simp

theorem arrive_eq_overLimit {m : Machine} {line : Int} {n : Nat} :
    m.arrive conf p line = .overLimit n ↔
      ∃ s, p.next? line = some (n, s) ∧ m.atLimit conf = true := by
  unfold arrive
  rcases p.next? line with _ | ⟨n', s'⟩
  · simp
  · cases m.atLimit conf <;> simp

theorem arrive_eq_pastEnd {m : Machine} {line : Int} :
    m.arrive conf p line = .pastEnd ↔ p.next? line = none := by
  unfold arrive
  rcases p.next? line with _ | ⟨n', s'⟩
  · simp
  · cases m.atLimit conf <;> simp

/-- **A limited run ends**: it starts no more statements than its limit still allows. -/
theorem run_within (hpos : 0 < conf.limit) {fuel : Nat} {line : Int} {m : Machine}
    (hfuel : conf.limit ≤ m.steps + fuel) : (run conf p fuel line m).2 ≠ .unfinished := by
  fun_induction run conf p fuel line m with
  | case1 fuel line m ha => exact nofun
  | case2 fuel line m n ha => exact nofun
  | case3 line m n s ha =>
    have hlimit := (atLimit_eq_false hpos).mp (arrive_eq_statement.mp ha).2
    omega
  | case4 line m n s ha fuel m' flow hexec ih =>
    have hstep := steps_statement hexec
    exact ih (by omega)
  | case5 line m n s ha fuel m' stop hexec => exact nofun

/-! ## From one line of a run to a later one -/

/-- A run at a line in a machine comes to another line, in another machine. It takes as many
statements as are counted between the two. -/
structure Leads (conf : Settings) (p : Program) (line : Int) (m : Machine) (line' : Int)
    (m' : Machine) : Prop where
  steps : m.steps ≤ m'.steps
  run : ∀ more, run conf p (m'.steps - m.steps + more) line m = Machine.run conf p more line' m'
  walk : ∀ printed, ∃ k printed', (Position.next conf p)^[k] (.arriving line m printed) =
    .arriving line' m' printed'

namespace Leads

variable {line line' line'' : Int} {m m' m'' : Machine}

theorem trans (h : Leads conf p line m line' m') (h' : Leads conf p line' m' line'' m'') :
    Leads conf p line m line'' m'' where
  steps := Nat.le_trans h.steps h'.steps
  run more := by
    have hsum : m''.steps - m.steps + more =
        m'.steps - m.steps + (m''.steps - m'.steps + more) := by
      have := h.steps
      have := h'.steps
      omega
    rw [hsum, h.run, h'.run]
  walk printed := by
    obtain ⟨k, printed', hk⟩ := h.walk printed
    obtain ⟨k', printed'', hk'⟩ := h'.walk printed'
    exact ⟨k' + k, printed'', by rw [Function.iterate_add_apply, hk, hk']⟩

/-- Lines without a statement are passed. -/
theorem passed {n : Nat} {s : Stmt} (h : p.next? line = some (n, s)) :
    Leads conf p line m n m where
  steps := Nat.le_refl _
  run more := by
    have hs := Program.stmt?_of_next? h
    have harrive : m.arrive conf p line = m.arrive conf p n := by
      unfold arrive
      rw [h, Program.next?_of_stmt? hs]
    rw [Nat.sub_self, Nat.zero_add]
    unfold Machine.run
    rw [harrive]
  walk printed := by
    obtain ⟨-, k, hk⟩ := (Position.iterate_next? conf p m printed line).2 n s h
    exact ⟨k, printed, hk⟩

theorem statement {n : Nat} {s : Stmt} {flow : Flow} (ha : m.arrive conf p line = .statement n s)
    (hexec : (m.begin conf s).exec conf s = (m', .ok flow)) :
    Leads conf p line m (follow n flow) m' := by
  have hsteps := steps_statement hexec
  refine ⟨by omega, fun more => ?_, fun printed => ?_⟩
  · rw [show m'.steps - m.steps + more = more + 1 by omega]
    exact run_succ_ok more ha hexec
  · obtain ⟨k, hk⟩ := arrive_statement ha printed
    refine ⟨k + 1, printed ++ s.printedLines m.vars, ?_⟩
    rw [hk, Position.after, hexec]
    cases flow <;> rfl

end Leads

end Machine

/-! ## Raising the limit -/

/-- The settings with a limit, and the same settings with a higher limit or none. -/
structure Settings.Raised (conf conf' : Settings) : Prop where
  prompt : conf'.prompt = conf.prompt
  tracing : conf'.tracing = conf.tracing
  limited : 0 < conf.limit
  raised : conf'.limit ≤ 0 ∨ conf.limit < conf'.limit

section Raised

variable {conf conf' : Settings} {p : Program}

namespace Settings.Raised

theorem statement (h : conf.Raised conf') (m : Machine) (s : Stmt) :
    (m.begin conf' s).exec conf' s = (m.begin conf s).exec conf s := by
  unfold Machine.exec Machine.begin
  rw [h.prompt, h.tracing]

/-- Up to the lower limit, the higher one is not reached. -/
theorem atLimit (h : conf.Raised conf') {m : Machine} (hm : m.steps ≤ conf.limit) :
    m.atLimit conf' = false := by
  rw [Bool.eq_false_iff, ne_eq, Machine.atLimit_eq_true]
  have := h.raised
  omega

theorem arrive_statement (h : conf.Raised conf') {m : Machine} {line : Int} {n : Nat} {s : Stmt}
    (ha : m.arrive conf p line = .statement n s) : m.arrive conf' p line = .statement n s := by
  obtain ⟨hn, hlimit⟩ := Machine.arrive_eq_statement.mp ha
  refine Machine.arrive_eq_statement.mpr ⟨hn, h.atLimit ?_⟩
  rw [Machine.atLimit_eq_false h.limited] at hlimit
  omega

end Settings.Raised

namespace Machine

/-- **A run that is not cut does not depend on the limit.** -/
theorem run_uncut (h : conf.Raised conf') (fuel : Nat) (line : Int) (m : Machine)
    (hcut : ∀ n line', (run conf p fuel line m).2 ≠ .cut n line') :
    run conf' p fuel line m = run conf p fuel line m := by
  fun_induction run conf p fuel line m with
  | case1 fuel line m ha =>
    unfold run
    rw [arrive_eq_pastEnd.mpr (arrive_eq_pastEnd.mp ha)]
  | case2 fuel line m n ha => exact absurd rfl (hcut _ _)
  | case3 line m n s ha => exact run_zero (h.arrive_statement ha)
  | case4 line m n s ha fuel m' flow hexec ih =>
    rw [run_succ_ok fuel (h.arrive_statement ha) ((h.statement m s).trans hexec)]
    exact ih hcut
  | case5 line m n s ha fuel m' stop hexec =>
    exact run_succ_error fuel (h.arrive_statement ha) ((h.statement m s).trans hexec)

/-- **Where a run is cut the longer one goes on.** The cut is at a statement, with as many
statements started as the limit allows, and the longer run comes there too. -/
theorem run_cut (h : conf.Raised conf') {fuel : Nat} {line line' limit : Int} {m m' : Machine}
    (hsteps : m.steps ≤ conf.limit) (hrun : run conf p fuel line m = (m', .cut limit line')) :
    limit = conf.limit ∧ m'.steps = conf.limit ∧ (p.stmt? line').isSome ∧
      Leads conf' p line m line' m' := by
  fun_induction run conf p fuel line m with
  | case1 fuel line m ha => cases hrun
  | case2 fuel line m n ha =>
    cases hrun
    obtain ⟨s, hn, hlimit⟩ := arrive_eq_overLimit.mp ha
    have hs := Program.stmt?_of_next? hn
    have hle := (atLimit_eq_true.mp hlimit).2
    exact ⟨rfl, by omega, by rw [hs]; rfl, .passed hn⟩
  | case3 line m n s ha => cases hrun
  | case4 line m n s ha fuel m₁ flow hexec ih =>
    have hcount := steps_statement hexec
    have hlimit := (atLimit_eq_false h.limited).mp (arrive_eq_statement.mp ha).2
    obtain ⟨heq, hsteps', hs, hleads⟩ := ih (by omega) hrun
    have hfirst : Leads conf' p line m (follow n flow) m₁ :=
      .statement (h.arrive_statement ha) ((h.statement m s).trans hexec)
    exact ⟨heq, hsteps', hs, hfirst.trans hleads⟩
  | case5 line m n s ha fuel m₁ stop hexec => cases hrun

end Machine

end Raised

/-- **The limit only cuts a run short.** A run of a program with a positive limit ends. Unless it is
cut, the run with a higher limit or none is the same: it ends in the same machine, with the same
output, trace, variables and statements counted, and in the same way. A run that is cut has started
as many statements as its limit; the longer run comes to the line of the cut in the machine of the
cut, starts the statement on that line next, and has the output and the trace of the cut run at the
front of its own. -/
theorem limit_only_cuts (conf : Settings) (p : Program) (stdin : Text) (room : Option Nat)
    {limit limit' : Int} (hlimit : 0 < limit) (hlimit' : limit' ≤ 0 ∨ limit < limit') :
    let short : Settings := { conf with limit := limit }
    let long : Settings := { conf with limit := limit' }
    let start := Machine.start p stdin room
    (Machine.run short p limit.toNat 1 start).2 ≠ .unfinished ∧
    ∀ fuel m e, Machine.run short p fuel 1 start = (m, e) →
      ((∀ n line, e ≠ .cut n line) → Machine.run long p fuel 1 start = (m, e)) ∧
      ∀ n line, e = .cut n line →
        n = limit ∧ m.steps = limit ∧
        (∃ k printed s, start.walk long p k = .arriving line m printed ∧ p.stmt? line = some s ∧
          start.walk long p (k + 1) = .after long line s m printed) ∧
        ∀ more, Machine.run long p (limit.toNat + more) 1 start = Machine.run long p more line m ∧
          m.output.text <+: (Machine.run long p (limit.toNat + more) 1 start).1.output.text ∧
          ∀ colored, m.traceText colored <+:
            (Machine.run long p (limit.toNat + more) 1 start).1.traceText colored := by
  intro short long start
  have hraised : short.Raised long := ⟨rfl, rfl, hlimit, hlimit'⟩
  have hsteps : (start.steps : Int) ≤ limit := Int.le_of_lt hlimit
  have hfuel : limit ≤ start.steps + limit.toNat := by omega
  refine ⟨Machine.run_within hlimit hfuel, fun fuel m e hrun => ⟨fun hcut => ?_, ?_⟩⟩
  · rw [← hrun]
    exact Machine.run_uncut hraised fuel 1 start (by rwa [hrun])
  · rintro n line rfl
    obtain ⟨hn, hcount, hs, hleads⟩ := Machine.run_cut hraised hsteps hrun
    obtain ⟨s, hs⟩ := Option.isSome_iff_exists.mp hs
    obtain ⟨k, printed, hk⟩ := hleads.walk []
    refine ⟨hn, hcount, ⟨k, printed, s, hk, hs, ?_⟩, fun more => ?_⟩
    · rw [Machine.walk, Function.iterate_succ_apply', hk]
      have := (Program.stmt?_le_size hs).2
      exact Position.next_statement (by omega) hs (hraised.atLimit (Int.le_of_eq hcount))
    · have hresume := hleads.run more
      have hstarted : m.steps - start.steps = limit.toNat := by
        have hcount : (m.steps : Int) = limit := hcount
        have : start.steps = 0 := rfl
        omega
      rw [hstarted] at hresume
      have hextends := Machine.run_extends long p more line m
      rw [hresume]
      exact ⟨rfl, hextends.output, hextends.traceText⟩

/-- A loop that is cut on its second round, and a program with as many statements as the limit,
which is not cut. -/
theorem limit_only_cuts_loop :
    ∃ loop straight,
      Program.load "loop" "again: print 1\n\nif 1 goto again\n" = .ok loop ∧
      (∃ m, Machine.run { limit := 3, tracing := true } loop 3 1 (.start loop "" none) =
          (m, .cut 3 3) ∧ m.steps = (3 : Int) ∧
        ∀ more, Machine.run { tracing := true } loop (3 + more) 1 (.start loop "" none) =
            Machine.run { tracing := true } loop more 3 m ∧
          m.output.text <+: (Machine.run { tracing := true } loop (3 + more) 1
            (.start loop "" none)).1.output.text) ∧
      Program.load "straight" "let x = 2\n\nprint x\nprint 1\n" = .ok straight ∧
      ∃ m, Machine.run { limit := 3 } straight 3 1 (.start straight "" none) = (m, .finished) ∧
        Machine.run { limit := 4 } straight 3 1 (.start straight "" none) = (m, .finished) := by
  let loop : Program := ⟨"loop", #[⟨some "again", some ⟨1, .print [.value (.number "1")]⟩⟩,
    ⟨none, none⟩, ⟨none, some ⟨3, .branch (.number "1") "again"⟩⟩]⟩
  let straight : Program := ⟨"straight", #[⟨none, some ⟨1, .assign "x" (.number "2")⟩⟩,
    ⟨none, none⟩, ⟨none, some ⟨3, .print [.value (.var "x")]⟩⟩,
    ⟨none, some ⟨4, .print [.value (.number "1")]⟩⟩]⟩
  have hcut : (Machine.run { limit := 3, tracing := true } loop 3 1 (.start loop "" none)).2 =
      .cut 3 3 := by decide +kernel
  have hend : (Machine.run { limit := 3 } straight 3 1 (.start straight "" none)).2 =
      .finished := by decide +kernel
  obtain ⟨-, hloop⟩ := limit_only_cuts { tracing := true } loop "" none
    (show (0 : Int) < 3 by decide) (.inl (Int.le_refl 0))
  obtain ⟨-, hstraight⟩ := limit_only_cuts {} straight "" none
    (show (0 : Int) < 3 by decide) (.inr (show (3 : Int) < 4 by decide))
  obtain ⟨-, hsteps, -, hmore⟩ := (hloop 3 _ _ (Prod.ext rfl hcut)).2 3 3 rfl
  exact ⟨loop, straight, rfl, ⟨_, Prod.ext rfl hcut, hsteps, fun more =>
      ⟨(hmore more).1, (hmore more).2.1⟩⟩, rfl,
    _, Prod.ext rfl hend, (hstraight 3 _ _ (Prod.ext rfl hend)).1 nofun⟩

end TinyLang
