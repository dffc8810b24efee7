import TinyLang.Finding
import TinyLang.Proofs.Machine.Lines

/-!
# What a statement may change

Performing an action changes little of a machine: it adds to the output, takes from the input, and
sets the variable that the action assigns. The statement counter and the trace are changed by
beginning a statement.

* `Machine.perform_effect`: this, for every action, whether it stops or not.
* `Position.next_cases`: what one line of a walk is.
* `Position.iterate_induction`: what beginning and performing statements preserves, a walk
  preserves.
* `walk_labels`: along a walk labels mean what they meant at the start.
* `Position.ended_at`: a walk that is over ended at a line that it came to.
* `Position.stopped_at`: a walk that has stopped did so at a statement that it came to.
-/

namespace TinyLang

theorem Output.text_prefix_write (o : Output) (t : Text) : o.text <+: (o.write t).text := by
  unfold Output.write Output.text
  split <;> simp

namespace Machine

/-- Nothing has changed but the input, and what was added to the output. -/
structure Frame (m m' : Machine) : Prop where
  vars : m'.vars = m.vars
  labels : m'.labels = m.labels
  steps : m'.steps = m.steps
  trace : m'.trace = m.trace
  output : m.output.text <+: m'.output.text

/-- What performing an action does: nothing else has changed but the variable that it assigns. -/
inductive Effect (a : Action) (m : Machine) : Machine → Prop
  | frame {m' : Machine} (h : Frame m m') : Effect a m m'
  | set {m' : Machine} {name : Text} (htarget : a.target? = some name) (v : Number)
      (h : Frame m m') : Effect a m (m'.set name v)

variable {m m' : Machine} {a : Action}

theorem Frame.refl (m : Machine) : Frame m m := ⟨rfl, rfl, rfl, rfl, List.prefix_rfl⟩

theorem Frame.trans {m'' : Machine} (h : Frame m m') (h' : Frame m' m'') : Frame m m'' :=
  ⟨h'.vars.trans h.vars, h'.labels.trans h.labels, h'.steps.trans h.steps, h'.trace.trans h.trace,
    h.output.trans h'.output⟩

theorem frame_write (m : Machine) (t : Text) : Frame m (m.write t).1 :=
  ⟨rfl, rfl, rfl, rfl, m.output.text_prefix_write t⟩

theorem frame_ask (m : Machine) (prompt : Text) : Frame m (m.ask prompt).1 := by
  rw [Machine.ask_def]
  split
  · exact .refl m
  · exact m.frame_write prompt

theorem frame_readNumber (m : Machine) (line : Int) : Frame m (m.readNumber line).1 := by
  unfold Machine.readNumber
  split
  · exact .refl m
  · exact ⟨rfl, rfl, rfl, rfl, List.prefix_rfl⟩

/-- **What an action may change.** -/
theorem perform_effect (m : Machine) (prompt : Text) (line : Int) (a : Action) :
    Effect a m (m.perform prompt line a).1 := by
  cases a with
  | assign target e =>
    rw [perform_assign]
    split
    next v _ => exact .set rfl v (.refl m)
    · exact .frame (.refl m)
  | branch c label =>
    rw [perform_branch]
    split
    · exact .frame (.refl m)
    · split
      · split <;> exact .frame (.refl m)
      · exact .frame (.refl m)
  | print items =>
    rw [perform_print]
    split
    · exact .frame (.refl m)
    next text _ =>
      have h := m.frame_write text
      rcases hw : m.write text with ⟨m', stop | _⟩ <;> rw [hw] at h <;> exact .frame h
  | input target =>
    have hask := m.frame_ask prompt
    rw [perform_input]
    rcases ha : m.ask prompt with ⟨m', stop | _⟩ <;> rw [ha] at hask
    · exact .frame hask
    · have hread := hask.trans (m'.frame_readNumber line)
      dsimp only
      rcases hr : m'.readNumber line with ⟨m'', stop | v⟩ <;> rw [hr] at hread
      · exact .frame hread
      · exact .set rfl v hread

namespace Effect

theorem labels (h : Effect a m m') : m'.labels = m.labels := by
  cases h with
  | frame h => exact h.labels
  | set _ _ h => exact h.labels

theorem steps (h : Effect a m m') : m'.steps = m.steps := by
  cases h with
  | frame h => exact h.steps
  | set _ _ h => exact h.steps

theorem trace (h : Effect a m m') : m'.trace = m.trace := by
  cases h with
  | frame h => exact h.trace
  | set _ _ h => exact h.trace

theorem output (h : Effect a m m') : m.output.text <+: m'.output.text := by
  cases h with
  | frame h => exact h.output
  | set _ _ h => exact h.output

/-- A variable that is not assigned keeps its value. -/
theorem find? (h : Effect a m m') {name : Text} (htarget : a.target? ≠ some name) :
    m'.vars.find? name = m.vars.find? name := by
  cases h with
  | frame h => rw [h.vars]
  | @set m' x hx v h =>
    have hne : name ≠ x := fun heq => htarget (heq ▸ hx)
    rw [Machine.set, Table.find?_insert_of_ne _ _ hne, h.vars]

end Effect

theorem exec_effect (m : Machine) (conf : Settings) (s : Stmt) :
    Effect s.action m (m.exec conf s).1 := m.perform_effect conf.prompt s.line s.action

end Machine

/-! ## Along a walk -/

/-- The machine at a position. -/
def Position.machine : Position → Machine
  | .arriving _ m _ => m
  | .ended _ m _ => m

section Walk

variable {conf : Settings} {p : Program}

theorem Position.machine_after (line : Int) (s : Stmt) (m : Machine) (printed : List (List Item)) :
    (Position.after conf line s m printed).machine = ((m.begin conf s).exec conf s).1 := by
  unfold Position.after
  rcases (m.begin conf s).exec conf s with ⟨m', stop | _ | target⟩ <;> rfl

/-- A walk that is over after a statement has stopped there. -/
theorem Position.after_eq_ended {line : Int} {s : Stmt} {m m' : Machine} {e : Ending}
    {printed printed' : List (List Item)}
    (h : Position.after conf line s m printed = .ended e m' printed') :
    ∃ stop, e = .stopped stop ∧ (m.begin conf s).exec conf s = (m', .error stop) := by
  unfold Position.after at h
  rcases hexec : (m.begin conf s).exec conf s with ⟨m₁, stop | _ | target⟩ <;>
    rw [hexec] at h <;> cases h
  exact ⟨stop, rfl, rfl⟩

variable (conf p) in
/-- What one line of a walk is. -/
theorem Position.next_cases (line : Int) (m : Machine) (printed : List (List Item)) :
    p.size < line ∧ Position.next conf p (.arriving line m printed) = .ended .finished m printed ∨
    ¬ p.size < line ∧ p.stmt? line = none ∧
      Position.next conf p (.arriving line m printed) = .arriving (line + 1) m printed ∨
    ∃ s, ¬ p.size < line ∧ p.stmt? line = some s ∧
      (m.atLimit conf = true ∧
          Position.next conf p (.arriving line m printed) = .ended (.cut conf.limit line) m printed ∨
        m.atLimit conf = false ∧
          Position.next conf p (.arriving line m printed) = .after conf line s m printed) := by
  by_cases hsize : p.size < line
  · exact .inl ⟨hsize, next_past hsize⟩
  cases hs : p.stmt? line with
  | none => exact .inr (.inl ⟨hsize, rfl, next_blank hsize hs⟩)
  | some s =>
    refine .inr (.inr ⟨s, hsize, rfl, ?_⟩)
    cases hlimit : m.atLimit conf with
    | true => exact .inl ⟨rfl, next_overLimit hsize hs hlimit⟩
    | false => exact .inr ⟨rfl, next_statement hsize hs hlimit⟩

variable (conf p) in
/-- One line of a walk leaves the machine alone or starts a statement. -/
theorem Position.machine_next (x : Position) :
    (x.next conf p).machine = x.machine ∨
      ∃ line s, p.stmt? line = some s ∧
        (x.next conf p).machine = ((x.machine.begin conf s).exec conf s).1 := by
  cases x with
  | ended e m printed => exact .inl rfl
  | arriving line m printed =>
    rcases Position.next_cases conf p line m printed with
      ⟨-, h⟩ | ⟨-, -, h⟩ | ⟨s, -, hs, ⟨-, h⟩ | ⟨-, h⟩⟩
    · exact .inl (by rw [h]; rfl)
    · exact .inl (by rw [h]; rfl)
    · exact .inl (by rw [h]; rfl)
    · exact .inr ⟨line, s, hs, by rw [h]; exact Position.machine_after line s m printed⟩

/-- **What statements preserve, a walk preserves.** -/
theorem Position.iterate_induction {P : Machine → Prop}
    (hstep : ∀ line s m, p.stmt? line = some s → P m → P ((m.begin conf s).exec conf s).1)
    (x : Position) (hx : P x.machine) (n : Nat) : P ((Position.next conf p)^[n] x).machine := by
  induction n with
  | zero => exact hx
  | succ n ih =>
    rw [Function.iterate_succ_apply']
    rcases ((Position.next conf p)^[n] x).machine_next conf p with
      h | ⟨line, s, hs, h⟩
    · rwa [h]
    · rw [h]
      exact hstep line s _ hs ih

variable (conf p) in
/-- Labels mean the same lines all along a walk. -/
theorem walk_labels (m₀ : Machine) (n : Nat) :
    (m₀.walk conf p n).machine.labels = m₀.labels := by
  refine Position.iterate_induction (P := fun m => m.labels = m₀.labels) (fun line s m _ h => ?_)
    (.arriving 1 m₀ []) rfl n
  rw [((m.begin conf s).exec_effect conf s).labels]
  exact h

/-- A walk that is over ended at a line that it came to. -/
theorem Position.ended_at {x : Position} {n : Nat} {e : Ending} {m' : Machine}
    {printed' : List (List Item)} (hx : ∃ line m printed, x = .arriving line m printed)
    (h : (Position.next conf p)^[n] x = .ended e m' printed') :
    ∃ k line m printed, (Position.next conf p)^[k] x = .arriving line m printed ∧
      Position.next conf p (.arriving line m printed) = .ended e m' printed' := by
  induction n with
  | zero =>
    obtain ⟨line, m, printed, rfl⟩ := hx
    cases h
  | succ n ih =>
    rw [Function.iterate_succ_apply'] at h
    cases hn : (Position.next conf p)^[n] x with
    | ended e m printed =>
      rw [hn] at h ih
      exact ih h
    | arriving line m printed =>
      rw [hn] at h
      exact ⟨n, line, m, printed, hn, h⟩

/-- A walk that has stopped did so at a statement that it came to. -/
theorem Position.stopped_at {x : Position} {n : Nat} {stop : Stop} {m' : Machine}
    {printed' : List (List Item)} (hx : ∃ line m printed, x = .arriving line m printed)
    (h : (Position.next conf p)^[n] x = .ended (.stopped stop) m' printed') :
    ∃ k line m printed s, (Position.next conf p)^[k] x = .arriving line m printed ∧
      p.stmt? line = some s ∧ (m.begin conf s).exec conf s = (m', .error stop) := by
  obtain ⟨k, line, m, printed, hk, hend⟩ := Position.ended_at hx h
  rcases Position.next_cases conf p line m printed with
    ⟨-, h'⟩ | ⟨-, -, h'⟩ | ⟨s, -, hs, ⟨-, h'⟩ | ⟨-, h'⟩⟩ <;> rw [h'] at hend
  · cases hend
  · cases hend
  · cases hend
  obtain ⟨_, ⟨⟩, hexec⟩ := Position.after_eq_ended hend
  exact ⟨k, line, m, printed, s, hk, hs, hexec⟩

end Walk

end TinyLang
