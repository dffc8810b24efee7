import TinyLang.Code.Compile
import TinyLang.Proofs.Code.Execution

/-!
# Straight-line code and its blocks

Compiling goes through straight-line code (`Step`), which `cutBlocks` cuts into blocks. Here
straight-line code gets a meaning of its own (`execSteps`), in which a guarded read is one step and
there are no blocks, and `cutBlocks_leads` says that the blocks do what the code does: a module that
holds the blocks goes from the first of them, through blocks of no line, to where the code ends.
-/

namespace TinyLang.Code

/-! ## Executing straight-line code -/

/-- Executes a step on a line. -/
def Step.exec (env : Surroundings) (line : Nat) (s : State) : Step → Result
  | .plain i => i.exec env s
  | .guarded flag value slot text =>
    match (Instr.loadFlag flag slot).exec env s with
    | .error e => .error e
    | .ok s' =>
      if s.flags slot then (Instr.loadValue value slot).exec env s'
      else (Instr.undefinedVariable text line).exec env s'
  | .abort => (Instr.syntaxError line).exec env s

/-- Executes straight-line code. -/
def execSteps (env : Surroundings) (line : Nat) (steps : List Step) (s : State) : Result :=
  steps.foldlM (Step.exec env line) s

/-- Where the end of straight-line code hands over. -/
def Tail.exec (env : Surroundings) (line : Nat) (s : State) : Tail → Config
  | .jump target => .entering target s
  | .fork flag yes no => (Terminator.fork flag yes no).exec s
  | .forkOrFail flag text no =>
    match s.flag? flag with
    | some true => (Block.mk .exit [.illegalGoto text line] .unreachable).exec env s
    | some false => .entering no s
    | none => .ended .stuck s

/-- Where code with an end hands over, given what the code came to. -/
def Result.then (env : Surroundings) (line : Nat) (tail : Tail) : Result → Config
  | .ok s => tail.exec env line s
  | .error (halt, s) => .ended halt s

variable {env : Surroundings} {line : Nat}

theorem execAll_append_ok {xs : List Instr} {s s' : State} (ys : List Instr)
    (h : execAll env xs s = .ok s') : execAll env (xs ++ ys) s = execAll env ys s' := by
  unfold execAll at h ⊢
  rw [List.foldlM_append, h]
  rfl

theorem execAll_append_error {xs : List Instr} {s : State} {e : Halt × State} (ys : List Instr)
    (h : execAll env xs s = .error e) : execAll env (xs ++ ys) s = .error e := by
  unfold execAll at h ⊢
  rw [List.foldlM_append, h]
  rfl

theorem execAll_singleton (i : Instr) (s : State) : execAll env [i] s = i.exec env s := by
  unfold execAll
  rw [List.foldlM_cons]
  cases i.exec env s <;> rfl

/-- The instructions before a cut are kept newest first, so one more is executed last. -/
theorem execAll_push {before : List Instr} {s₀ s₁ : State} (i : Instr)
    (h : execAll env before.reverse s₀ = .ok s₁) :
    execAll env (i :: before).reverse s₀ = i.exec env s₁ := by
  rw [List.reverse_cons, execAll_append_ok _ h, execAll_singleton]

theorem execSteps_append_ok {xs : List Step} {s s' : State} (ys : List Step)
    (h : execSteps env line xs s = .ok s') :
    execSteps env line (xs ++ ys) s = execSteps env line ys s' := by
  unfold execSteps at h ⊢
  rw [List.foldlM_append, h]
  rfl

theorem execSteps_append_error {xs : List Step} {s : State} {e : Halt × State} (ys : List Step)
    (h : execSteps env line xs s = .error e) :
    execSteps env line (xs ++ ys) s = .error e := by
  unfold execSteps at h ⊢
  rw [List.foldlM_append, h]
  rfl

theorem execSteps_cons_ok {x : Step} {s s' : State} (ys : List Step)
    (h : x.exec env line s = .ok s') :
    execSteps env line (x :: ys) s = execSteps env line ys s' := by
  unfold execSteps
  rw [List.foldlM_cons, h]
  rfl

theorem execSteps_cons_error {x : Step} {s : State} {e : Halt × State} (ys : List Step)
    (h : x.exec env line s = .error e) : execSteps env line (x :: ys) s = .error e := by
  unfold execSteps
  rw [List.foldlM_cons, h]
  rfl

theorem execSteps_plain_ok {i : Instr} {s s' : State} (ys : List Step)
    (h : i.exec env s = .ok s') :
    execSteps env line (.plain i :: ys) s = execSteps env line ys s' :=
  execSteps_cons_ok ys h

theorem execSteps_plain_error {i : Instr} {s : State} {e : Halt × State} (ys : List Step)
    (h : i.exec env s = .error e) : execSteps env line (.plain i :: ys) s = .error e :=
  execSteps_cons_error ys h

theorem execSteps_singleton (x : Step) (s : State) :
    execSteps env line [x] s = x.exec env line s := by
  unfold execSteps
  rw [List.foldlM_cons]
  cases x.exec env line s <;> rfl

/-! ## Guarded reads -/

@[simp] theorem State.flag?_put (s : State) (r : Nat) (b : Bool) :
    (s.put r (.flag b)).flag? r = some b := by
  simp [State.put, State.flag?]

/-- How the program ends when an unassigned variable is reported. -/
def undefinedHalt (env : Surroundings) (text line : Nat) : Halt :=
  match env.texts[text]? with
  | some t => .undefinedVariable t (lineWord line)
  | none => .stuck

theorem Instr.exec_undefinedVariable (text line : Nat) (s : State) :
    (Instr.undefinedVariable text line).exec env s = .error (undefinedHalt env text line, s) := by
  simp only [Instr.exec, undefinedHalt]
  cases env.texts[text]? <;> rfl

theorem Instr.exec_loadFlag {dst slot : Nat} {s : State} (h : slot < env.slots.length) :
    (Instr.loadFlag dst slot).exec env s = .ok (s.put dst (.flag (s.flags slot))) := by
  simp only [Instr.exec, if_pos h]

theorem Instr.exec_loadValue {dst slot : Nat} {s : State} (h : slot < env.slots.length) :
    (Instr.loadValue dst slot).exec env s = .ok (s.put dst (.number (s.values slot))) := by
  simp only [Instr.exec, if_pos h]

theorem Step.exec_guarded_set {flag value slot text : Nat} {s : State}
    (h : slot < env.slots.length) (hset : s.flags slot = true) :
    (Step.guarded flag value slot text).exec env line s =
      .ok ((s.put flag (.flag true)).put value (.number (s.values slot))) := by
  simp only [Step.exec, Instr.exec_loadFlag h, hset, if_true, Instr.exec_loadValue h]
  rfl

theorem Step.exec_guarded_unset {flag value slot text : Nat} {s : State}
    (h : slot < env.slots.length) (hset : s.flags slot = false) :
    (Step.guarded flag value slot text).exec env line s =
      .error (undefinedHalt env text line, s.put flag (.flag false)) := by
  simp only [Step.exec, Instr.exec_loadFlag h, hset, Instr.exec_undefinedVariable]
  rfl

/-! ## Going through blocks of no line -/

/-- A module gets from one place to another in one step or more, with no line block between. -/
inductive Leads (M : Module) (input : Nat → Option Number) : Config → Config → Prop
  | last {c c' : Config} : M.step input c = c' → Leads M input c c'
  | more {c d c' : Config} : M.step input c = d → d.visit? = none → Leads M input d c' →
      Leads M input c c'

variable {M : Module} {input : Nat → Option Number}

theorem step_entering {l : Label} {b : Block} (hb : M.block? l = some b) (s : State) :
    M.step input (.entering l s) = b.exec (M.surroundings input) s := by
  simp only [Module.step, hb]

theorem Block.exec_ok {b : Block} {s s' : State} (h : execAll env b.instrs s = .ok s') :
    b.exec env s = b.terminator.exec s' := by
  simp only [Block.exec, h]

theorem Block.exec_error {b : Block} {s s' : State} {halt : Halt}
    (h : execAll env b.instrs s = .error (halt, s')) : b.exec env s = .ended halt s' := by
  simp only [Block.exec, h]

/-! ## Cutting code into blocks -/

theorem mem_putSecond {b x : Block} {l : List Block} : x ∈ putSecond b l ↔ x = b ∨ x ∈ l := by
  cases l with
  | nil => simp [putSecond]
  | cons first others =>
    simp only [putSecond, List.mem_cons]
    exact or_left_comm

/-- The first of the blocks has the label asked for and starts with the instructions it was given,
whatever the code adds to them. -/
theorem cutBlocks_head (line : Nat) (tail : Tail) (label : Label) (before : List Instr) (aux : Nat)
    (steps : List Step) :
    ∃ more term others,
      cutBlocks line tail label before aux steps =
        ⟨label, before.reverse ++ more, term⟩ :: others := by
  induction steps generalizing before with
  | nil =>
    cases tail with
    | jump target => exact ⟨[], _, _, by rw [List.append_nil]; rfl⟩
    | fork flag yes no => exact ⟨[], _, _, by rw [List.append_nil]; rfl⟩
    | forkOrFail flag text no => exact ⟨[], _, _, by rw [List.append_nil]; rfl⟩
  | cons step rest ih =>
    cases step with
    | plain i =>
      obtain ⟨more, term, others, h⟩ := ih (i :: before)
      refine ⟨i :: more, term, others, ?_⟩
      rw [cutBlocks, h]
      simp
    | guarded flag value slot text =>
      exact ⟨[.loadFlag flag slot], _, _, by rw [cutBlocks, List.reverse_cons]⟩
    | abort => exact ⟨[.syntaxError line], _, _, by rw [cutBlocks, List.reverse_cons]⟩

/-- The end of straight-line code, by the blocks it becomes. -/
theorem cutBlocks_nil_leads {tail : Tail} {label : Label} {before : List Instr} {aux : Nat}
    {s₀ s₁ : State}
    (hblocks : ∀ b ∈ cutBlocks line tail label before aux [], M.block? b.label = some b)
    (hbefore : execAll (M.surroundings input) before.reverse s₀ = .ok s₁) :
    Leads M input (.entering label s₀) (tail.exec (M.surroundings input) line s₁) := by
  cases tail with
  | jump target =>
    refine .last ?_
    rw [step_entering (hblocks _ List.mem_cons_self), Block.exec_ok hbefore]
    rfl
  | fork flag yes no =>
    refine .last ?_
    rw [step_entering (hblocks _ List.mem_cons_self), Block.exec_ok hbefore]
    rfl
  | forkOrFail flag text no =>
    have hfirst : M.step input (.entering label s₀) =
        (Terminator.fork flag (.aux aux) no).exec s₁ := by
      rw [step_entering (hblocks _ List.mem_cons_self), Block.exec_ok hbefore]
    have hfail := hblocks ⟨.aux aux, [.illegalGoto text line], .unreachable⟩
      (List.mem_cons_of_mem _ List.mem_cons_self)
    simp only [Terminator.exec] at hfirst
    simp only [Tail.exec]
    rcases hflag : s₁.flag? flag with _ | _ | _
    · rw [hflag] at hfirst
      exact .last hfirst
    · rw [hflag] at hfirst
      exact .last hfirst
    · rw [hflag] at hfirst
      exact .more hfirst rfl (.last (step_entering hfail s₁))

/-- A block ends the program where the instructions that it was given do, whatever the code adds to
them. -/
theorem cutBlocks_error {tail : Tail} {steps : List Step} {label : Label} {before : List Instr}
    {aux : Nat} {s₀ s : State} {halt : Halt}
    (hblocks : ∀ b ∈ cutBlocks line tail label before aux steps, M.block? b.label = some b)
    (h : execAll (M.surroundings input) before.reverse s₀ = .error (halt, s)) :
    M.step input (.entering label s₀) = .ended halt s := by
  obtain ⟨more, term, others, hcut⟩ := cutBlocks_head line tail label before aux steps
  rw [hcut] at hblocks
  rw [step_entering (hblocks _ List.mem_cons_self)]
  exact Block.exec_error (execAll_append_error more h)

/-- What the blocks of a guarded read do: they go on where the value is loaded, or end the program as
the read does. -/
theorem guarded_cases {flag slot text aux : Nat} (value : Nat) {label : Label}
    {before : List Instr} {s₀ s₁ : State}
    (hfirst : M.block? label = some
      ⟨label, (Instr.loadFlag flag slot :: before).reverse, .fork flag (.aux aux) (.aux (aux + 1))⟩)
    (hbad : M.block? (.aux (aux + 1)) = some
      ⟨.aux (aux + 1), [.undefinedVariable text line], .unreachable⟩)
    (hbefore : execAll (M.surroundings input) before.reverse s₀ = .ok s₁) :
    (∃ s s₂, M.step input (.entering label s₀) = .entering (.aux aux) s ∧
      (Instr.loadValue value slot).exec (M.surroundings input) s = .ok s₂ ∧
      (Step.guarded flag value slot text).exec (M.surroundings input) line s₁ = .ok s₂) ∨
    ∃ halt s, Leads M input (.entering label s₀) (.ended halt s) ∧
      (Step.guarded flag value slot text).exec (M.surroundings input) line s₁ = .error (halt, s) := by
  have hload := execAll_push (Instr.loadFlag flag slot) hbefore
  by_cases hslot : slot < (M.surroundings input).slots.length
  · have hstep : M.step input (.entering label s₀) =
        .entering (if s₁.flags slot then .aux aux else .aux (aux + 1))
          (s₁.put flag (.flag (s₁.flags slot))) := by
      rw [step_entering hfirst, Block.exec_ok (hload.trans (Instr.exec_loadFlag hslot))]
      simp only [Terminator.exec, State.flag?_put]
    cases hset : s₁.flags slot with
    | true =>
      rw [hset] at hstep
      exact .inl ⟨_, _, hstep, Instr.exec_loadValue hslot, Step.exec_guarded_set hslot hset⟩
    | false =>
      rw [hset] at hstep
      refine .inr ⟨_, _, .more hstep rfl (.last ?_), Step.exec_guarded_unset hslot hset⟩
      refine (step_entering hbad _).trans (Block.exec_error ?_)
      rw [execAll_singleton, Instr.exec_undefinedVariable]
  · have hstuck : (Instr.loadFlag flag slot).exec (M.surroundings input) s₁ =
        .error (.stuck, s₁) := by
      simp only [Instr.exec, if_neg hslot]
    refine .inr ⟨.stuck, s₁, .last ?_, by simp only [Step.exec, hstuck]⟩
    rw [step_entering hfirst]
    exact Block.exec_error (hload.trans hstuck)

/-- **The blocks of straight-line code do what the code does.** `s₁` is the state that the
instructions already in the first block lead to; what follows is up to the code and its end. -/
theorem cutBlocks_leads {tail : Tail} {steps : List Step} {label : Label} {before : List Instr}
    {aux : Nat} {s₀ s₁ : State}
    (hblocks : ∀ b ∈ cutBlocks line tail label before aux steps, M.block? b.label = some b)
    (hbefore : execAll (M.surroundings input) before.reverse s₀ = .ok s₁) :
    Leads M input (.entering label s₀)
      ((execSteps (M.surroundings input) line steps s₁).then (M.surroundings input) line tail) := by
  induction steps generalizing label before aux s₀ s₁ with
  | nil => exact cutBlocks_nil_leads hblocks hbefore
  | cons step rest ih =>
    cases step with
    | plain i =>
      rw [cutBlocks] at hblocks
      have hexec := execAll_push i hbefore
      cases hi : i.exec (M.surroundings input) s₁ with
      | ok s₂ =>
        rw [execSteps_plain_ok rest hi]
        exact ih hblocks (hexec.trans hi)
      | error e =>
        -- the block goes on behind the instruction, but the program has ended there
        rw [execSteps_plain_error rest hi]
        exact .last (cutBlocks_error hblocks (hexec.trans hi))
    | guarded flag value slot text =>
      rw [cutBlocks] at hblocks
      have hbad := hblocks ⟨.aux (aux + 1), [.undefinedVariable text line], .unreachable⟩
        (List.mem_cons_of_mem _ (mem_putSecond.mpr (.inl rfl)))
      have hrest : ∀ b ∈ cutBlocks line tail (.aux aux) [.loadValue value slot] (aux + 2) rest,
          M.block? b.label = some b :=
        fun b hb => hblocks b (List.mem_cons_of_mem _ (mem_putSecond.mpr (.inr hb)))
      rcases guarded_cases value (hblocks _ List.mem_cons_self) hbad hbefore with
        ⟨s, s₂, hstep, hload, hguard⟩ | ⟨halt, s, hleads, hguard⟩
      · rw [execSteps_cons_ok rest hguard]
        refine .more hstep rfl (ih hrest ?_)
        rwa [List.reverse_singleton, execAll_singleton]
      · rw [execSteps_cons_error rest hguard]
        exact hleads
    | abort =>
      rw [cutBlocks] at hblocks
      have hstop : Step.abort.exec (M.surroundings input) line s₁ =
          .error (.syntaxError (lineWord line), s₁) := rfl
      rw [execSteps_cons_error rest hstop]
      refine .last ?_
      rw [step_entering (hblocks _ List.mem_cons_self)]
      exact Block.exec_error ((execAll_push (Instr.syntaxError line) hbefore).trans rfl)

end TinyLang.Code
