import TinyLang.Proofs.Machine.Jumps
import TinyLang.Proofs.Machine.Trail

/-!
# Limited runs end

A run with a positive limit ends, from any machine and whatever its labels mean. Neither the line nor
the number of statements started decides it alone: lines without a statement are passed without a
count, and a branch goes back at the cost of one. Labels may mean any line, also one outside the
program. Past its end the run is finished, and before its first line it goes on at the first
statement.

* `Machine.run_unique`: two runs that end, with whatever fuel, end alike.
* `Machine.walk_cut_iff`: a walk is cut exactly at a statement that it comes to at the limit.
* `Machine.walk_past`, `Machine.walk_before`: a walk at a line outside the program.
* `limited_runs_end`: the headline.
-/

namespace TinyLang

variable {conf : Settings} {p : Program} {m m' : Machine} {e : Ending}

namespace Machine

/-! ## Runs end in one way -/

/-- Two runs that end, with whatever fuel, end alike. -/
theorem run_unique {fuel fuel' : Nat} (h : (run conf p fuel 1 m).2 ≠ .unfinished)
    (h' : (run conf p fuel' 1 m).2 ≠ .unfinished) :
    run conf p fuel 1 m = run conf p fuel' 1 m := by
  obtain ⟨k, printed, hk⟩ := run_walks rfl h
  obtain ⟨k', printed', hk'⟩ := run_walks rfl h'
  obtain ⟨he, hm, -⟩ := Position.ended_unique hk hk'
  exact Prod.ext hm he

/-! ## At the limit -/

/-- **A walk is cut exactly at a statement that it comes to at the limit.** -/
theorem walk_cut_iff (hpos : 0 < conf.limit) {k : Nat} {printed : List (List Item)}
    (hend : m.walk conf p k = .ended e m' printed) (limit line : Int) :
    e = .cut limit line ↔ limit = conf.limit ∧ ∃ i s m'' printed',
      m.walk conf p i = .arriving line m'' printed' ∧ p.stmt? line = some s ∧
        conf.limit ≤ m''.steps := by
  constructor
  · rintro rfl
    obtain ⟨i, line', m'', printed', hi, hnext⟩ := Position.ended_at ⟨_, _, _, rfl⟩ hend
    rcases Position.next_cases conf p line' m'' printed' with
      ⟨-, h⟩ | ⟨-, -, h⟩ | ⟨s, -, hs, ⟨hlimit, h⟩ | ⟨-, h⟩⟩ <;> rw [h] at hnext
    · cases hnext
    · cases hnext
    · cases hnext
      exact ⟨rfl, i, s, m', printed, hi, hs, (atLimit_eq_true.mp hlimit).2⟩
    · obtain ⟨_, ⟨⟩, -⟩ := Position.after_eq_ended hnext
  · rintro ⟨rfl, i, s, m'', printed', hi, hs, hsteps⟩
    have hcut : m.walk conf p (i + 1) = .ended (.cut conf.limit line) m'' printed' := by
      have := (Program.stmt?_le_size hs).2
      rw [walk_succ hi]
      exact Position.next_overLimit (by omega) hs (atLimit_eq_true.mpr ⟨hpos, hsteps⟩)
    exact (Position.ended_unique hend hcut).1

/-! ## Lines outside the program -/

/-- Past the end of the program a walk is finished. -/
theorem walk_past {k : Nat} {line : Int} {m'' : Machine} {printed : List (List Item)}
    (h : m.walk conf p k = .arriving line m'' printed) (hpast : p.size < line) :
    m.walk conf p (k + 1) = .ended .finished m'' printed := by
  rw [walk_succ h]
  exact Position.next_past hpast

/-- Before the first line a walk goes on at the first statement. -/
theorem walk_before {k n : Nat} {line : Int} {m'' : Machine} {printed : List (List Item)} {s : Stmt}
    (h : m.walk conf p k = .arriving line m'' printed) (hbefore : line < 1)
    (hs : p.stmt? n = some s) (hfirst : ∀ i : Int, i < n → p.stmt? i = none) :
    ∃ j, m.walk conf p (k + j) = .arriving n m'' printed := by
  obtain ⟨hlow, hhigh⟩ := Program.stmt?_le_size hs
  have hle : line ≤ n := by omega
  obtain ⟨j, hj⟩ := Position.iterate_blank conf p m'' printed hle (by omega) fun i _ => hfirst i
  exact ⟨j, by rw [walk_add h, hj]⟩

end Machine

/-- **A limited run always ends.** Take any program and any machine: its variables, the lines that
its labels mean, its input and the statements it has counted may be what they like. With a positive
limit there is one ending, which a run comes to with as much fuel as the limit still allows or more,
and it starts no more statements than that. The run is cut exactly if it comes to a statement with
the limit reached, and on the line of that statement. Whenever it takes a branch to a line past the
end it is finished, and to a line below 1 it goes on at the first statement of the program. -/
theorem limited_runs_end (conf : Settings) (p : Program) (m : Machine) (hpos : 0 < conf.limit) :
    ∃ m' e, e ≠ .unfinished ∧
      (∀ fuel, m.allowance conf ≤ fuel → Machine.run conf p fuel 1 m = (m', e) ∧
        (m.executions conf p fuel 1).length ≤ m.allowance conf ∧
        m'.steps = m.steps + (m.executions conf p fuel 1).length) ∧
      (∃ k printed, m.walk conf p k = .ended e m' printed) ∧
      (∀ limit line, e = .cut limit line ↔ limit = conf.limit ∧ ∃ k s m'' printed,
        m.walk conf p k = .arriving line m'' printed ∧ p.stmt? line = some s ∧
          conf.limit ≤ m''.steps) ∧
      ∀ k line m'' printed s label target,
        m.walk conf p k = .arriving line m'' printed → Machine.Takes conf p line m'' s label →
        m.labels.find? label = some target →
          m.walk conf p (k + 1) = .arriving target (m''.begin conf s) printed ∧
          (p.size < target → e = .finished ∧ m' = m''.begin conf s) ∧
          (target < 1 → ∃ (n : Nat) (first : Stmt) (j : Nat), p.stmt? n = some first ∧
            (∀ i : Int, i < n → p.stmt? i = none) ∧
            m.walk conf p (k + 1 + j) = .arriving n (m''.begin conf s) printed) := by
  have hwithin : ∀ fuel, m.allowance conf ≤ fuel →
      (Machine.run conf p fuel 1 m).2 ≠ .unfinished := by
    intro fuel hfuel
    unfold Machine.allowance at hfuel
    exact Machine.run_within hpos (by omega)
  have hne := hwithin _ (Nat.le_refl _)
  obtain ⟨k, printed, hend⟩ := Machine.run_walks rfl hne
  refine ⟨_, _, hne, fun fuel hfuel => ?_, ⟨k, printed, hend⟩, Machine.walk_cut_iff hpos hend, ?_⟩
  · have hrun := Machine.run_unique (hwithin fuel hfuel) hne
    have htrail := Machine.run_trail conf p fuel 1 m
    rw [hrun] at htrail
    exact ⟨hrun, htrail.length_le hpos, htrail.steps⟩
  · intro i line m'' printed' s label target hi htakes hlabel
    have hlabels : m''.labels = m.labels := by
      have h := walk_labels conf p m i
      rwa [hi] at h
    have hjump : m.walk conf p (i + 1) = .arriving target (m''.begin conf s) printed' := by
      rw [Machine.walk_succ hi]
      exact htakes.next_jump (hlabels ▸ hlabel) printed'
    refine ⟨hjump, fun hpast => ?_, fun hbefore => ?_⟩
    · obtain ⟨he, hm, -⟩ := Position.ended_unique hend (Machine.walk_past hjump hpast)
      exact ⟨he, hm⟩
    · obtain ⟨n, first, hn, hfirst⟩ := Program.exists_first htakes.stmt
      obtain ⟨j, hj⟩ := Machine.walk_before hjump hbefore hn hfirst
      exact ⟨n, first, j, hn, hfirst, hj⟩

/-- A branch whose label means a line below 1, with one of three statements counted already: it is
started twice more, then the run is cut. If the label means a line past the end, it is finished. -/
theorem limited_runs_end_outside :
    let p : Program := ⟨"loop", #[.blank, ⟨none, some ⟨2, .branch (.number "1") "a"⟩⟩]⟩
    let conf : Settings := { limit := 3 }
    let m (target : Int) : Machine :=
      { Machine.start p [] none with labels := [("a", target)], steps := 1 }
    (∃ m' : Machine, Machine.run conf p 2 1 (m (-3)) = (m', .cut 3 2) ∧ m'.steps = 3) ∧
      ∃ m' : Machine, Machine.run conf p 2 1 (m 9) = (m', .finished) ∧ m'.steps = 2 := by
  intro p conf m
  have htakes : ∀ target, Machine.Takes conf p 2 (m target) ⟨2, .branch (.number "1") "a"⟩ "a" :=
    fun target => ⟨rfl, rfl, .number "1", _, rfl, rfl, rfl⟩
  constructor
  · obtain ⟨m', e, -, hrun, -, hcut, -⟩ := limited_runs_end conf p (m (-3)) (by decide)
    obtain ⟨hrun, -, -⟩ := hrun 2 (by decide)
    have hend : e = .cut 3 2 := (hcut 3 2).mpr ⟨rfl, 13, _, _, _, rfl, rfl, by decide⟩
    subst hend
    cases hrun
    exact ⟨_, rfl, rfl⟩
  · obtain ⟨m', e, -, hrun, -, -, hjump⟩ := limited_runs_end conf p (m 9) (by decide)
    obtain ⟨hrun, -, -⟩ := hrun 2 (by decide)
    obtain ⟨-, hpast, -⟩ := hjump 1 2 (m 9) [] _ "a" 9 rfl (htakes 9) rfl
    obtain ⟨rfl, rfl⟩ := hpast (by decide)
    exact ⟨_, hrun, rfl⟩

end TinyLang
