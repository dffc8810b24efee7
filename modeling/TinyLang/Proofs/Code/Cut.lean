import TinyLang.Proofs.Code.Graph
import TinyLang.Proofs.Code.Routine

/-!
# Registers and branches of the code of a statement

The code of a statement numbers its registers one after the other and reads none but its own
(`Numbered`). Cutting it into blocks keeps this: the blocks follow each other in a chain, in which
only one block hands over to the next, so a register that was assigned in an earlier block of the
chain has its value in a later one.

* `routineOf_numbered`: the straight-line code of a statement is numbered.
* `gathered_cutBlocks`, `cutBlocks_reports`: cutting keeps the order of the instructions, apart from
  the reports, which stand in blocks of their own and keep their order too.
* `cutBlocks_closed`, `cutBlocks_targets`: how the blocks end, and where they branch to.
* `Module.InChain`: what holds where the code is cut, and stays true from step to step.
* `cutBlocks_available`: every register that is read in one of the blocks has its value.
-/

namespace TinyLang.Code

/-! ## Straight-line code -/

/-- The instructions that a step becomes. -/
def Step.instrs (line : Nat) : Step → List Instr
  | .plain i => [i]
  | .guarded flag value slot text =>
    [.loadFlag flag slot, .loadValue value slot, .undefinedVariable text line]
  | .abort => [.syntaxError line]

namespace Tail

/-- The instructions that the end of straight-line code becomes. -/
def instrs (line : Nat) : Tail → List Instr
  | forkOrFail _ text _ => [.illegalGoto text line]
  | _ => []

/-- The registers that the end of straight-line code reads. -/
def reads : Tail → List Nat
  | jump _ => []
  | fork flag _ _ => [flag]
  | forkOrFail flag _ _ => [flag]

/-- The blocks of other code that the end of straight-line code may hand over to. -/
def targets : Tail → List Label
  | jump target => [target]
  | fork _ yes no => [yes, no]
  | forkOrFail _ _ no => [no]

end Tail

/-- Straight-line code that assigns the registers from `reg` up to `next` one after the other, and
reads only registers from `lo` on that are assigned before. Only its guards and its aborts end the
program. -/
inductive Numbered (lo : Nat) : (reg : Nat) → List Step → (next : Nat) → Prop
  | nil {reg : Nat} : Numbered lo reg [] reg
  | effect {reg next : Nat} {i : Instr} {rest : List Step} (hdst : i.dst? = none)
      (hfatal : i.isFatal = false) (hreads : ∀ r ∈ i.reads, lo ≤ r ∧ r < reg)
      (h : Numbered lo reg rest next) : Numbered lo reg (.plain i :: rest) next
  | result {reg next : Nat} {i : Instr} {rest : List Step} (hdst : i.dst? = some reg)
      (hreads : ∀ r ∈ i.reads, lo ≤ r ∧ r < reg) (h : Numbered lo (reg + 1) rest next) :
      Numbered lo reg (.plain i :: rest) next
  | guarded {reg next slot text : Nat} {rest : List Step} (h : Numbered lo (reg + 2) rest next) :
      Numbered lo reg (.guarded reg (reg + 1) slot text :: rest) next
  | abort {reg next : Nat} {rest : List Step} (h : Numbered lo reg rest next) :
      Numbered lo reg (.abort :: rest) next

namespace Numbered

variable {lo reg mid next : Nat} {xs ys : List Step}

theorem append (h : Numbered lo reg xs mid) (h' : Numbered lo mid ys next) :
    Numbered lo reg (xs ++ ys) next := by
  induction h with
  | nil => exact h'
  | effect hdst hfatal hreads _ ih => exact .effect hdst hfatal hreads (ih h')
  | result hdst hreads _ ih => exact .result hdst hreads (ih h')
  | guarded _ ih => exact .guarded (ih h')
  | abort _ ih => exact .abort (ih h')

theorem le (h : Numbered lo reg xs next) : reg ≤ next := by
  induction h with
  | nil => exact Nat.le_refl _
  | effect _ _ _ _ ih => exact ih
  | result _ _ _ ih => omega
  | guarded _ ih => omega
  | abort _ ih => exact ih

/-- The registers that numbered code assigns. -/
theorem results (h : Numbered lo reg xs next) (line : Nat) :
    resultsOf (xs.flatMap (Step.instrs line)) = List.range' reg (next - reg) := by
  unfold resultsOf
  induction h with
  | nil => simp
  | effect hdst _ _ _ ih => simp [Step.instrs, hdst, ih]
  | @result reg next i rest hdst _ h ih =>
    have hlen : next - reg = next - (reg + 1) + 1 := by
      have := h.le
      omega
    simp [Step.instrs, hdst, ih, hlen, List.range'_succ]
  | @guarded reg next slot text rest h ih =>
    have hlen : next - reg = next - (reg + 2) + 1 + 1 := by
      have := h.le
      omega
    rw [List.flatMap_cons, List.filterMap_append, ih, hlen, List.range'_succ, List.range'_succ]
    rfl
  | abort _ ih =>
    rw [List.flatMap_cons, List.filterMap_append, ih]
    rfl

theorem plain (h : Numbered lo reg xs next) {i : Instr} (hi : .plain i ∈ xs) :
    i.isFatal = false := by
  induction h with
  | nil => cases hi
  | effect _ hfatal _ _ ih =>
    rcases List.mem_cons.1 hi with heq | hi
    · cases heq
      exact hfatal
    · exact ih hi
  | result hdst _ _ ih =>
    rcases List.mem_cons.1 hi with heq | hi
    · cases heq
      -- an instruction that assigns a register goes on
      cases i <;> first | rfl | cases hdst
    · exact ih hi
  | guarded _ ih => exact ih (List.mem_of_ne_of_mem Step.noConfusion hi)
  | abort _ ih => exact ih (List.mem_of_ne_of_mem Step.noConfusion hi)

end Numbered

section Routine

variable {ns : Names} {lo reg : Nat}

theorem fragmentOf_numbered {e : Expr} {f : Fragment} (h : fragmentOf ns reg e = .ok f)
    (hlo : lo ≤ reg) :
    Numbered lo reg f.steps f.next ∧ ∀ r ∈ f.value.reads, lo ≤ r ∧ r < f.next := by
  induction e generalizing reg f with
  | var name =>
    cases h
    exact ⟨.guarded .nil, List.forall_mem_singleton.2 ⟨by omega, Nat.lt_succ_self _⟩⟩
  | number text =>
    rw [fragmentOf] at h
    cases hread : Number.read? text with
    | none => simp [hread] at h
    | some v =>
      simp only [hread] at h
      cases h
      exact ⟨.nil, List.forall_mem_nil _⟩
  | quotation text =>
    cases h
    exact ⟨.abort .nil, List.forall_mem_nil _⟩
  | binary op left right ihl ihr =>
    obtain ⟨l, r, hl, hr, hjoin⟩ := fragmentOf_binary h
    obtain ⟨hnuml, hreadl⟩ := ihl hl hlo
    have hle := hnuml.le
    obtain ⟨hnumr, hreadr⟩ := ihr hr (Nat.le_trans hlo hle)
    have hle' := hnumr.le
    have hreads : ∀ x ∈ l.value.reads ++ r.value.reads, lo ≤ x ∧ x < r.next := by
      refine List.forall_mem_append.2 ⟨fun x hx => ?_, hreadr⟩
      have := hreadl x hx
      omega
    rcases hjoin with ⟨a, -, rfl⟩ | ⟨rel, -, rfl⟩
    · exact ⟨(hnuml.append hnumr).append (.result rfl hreads .nil),
        List.forall_mem_singleton.2 ⟨by omega, Nat.lt_succ_self _⟩⟩
    · have hflag : ∀ x ∈ [r.next], lo ≤ x ∧ x < r.next + 1 :=
        List.forall_mem_singleton.2 ⟨by omega, Nat.lt_succ_self _⟩
      exact ⟨(hnuml.append hnumr).append (.result rfl hreads (.result rfl hflag .nil)),
        List.forall_mem_singleton.2 ⟨by omega, Nat.lt_succ_self _⟩⟩
  | hole => cases h

theorem printSteps_numbered {items : List PrintItem} {steps : List Step} {next : Nat}
    (h : printSteps ns reg items = .ok (steps, next)) (hlo : lo ≤ reg) :
    Numbered lo reg steps next := by
  induction items generalizing reg steps with
  | nil =>
    cases h
    exact .effect rfl rfl (List.forall_mem_nil _) .nil
  | cons item items ih =>
    cases item with
    | literal t =>
      obtain ⟨⟨rest, next'⟩, hrest, h⟩ := bind_eq_ok.mp h
      cases h
      exact .effect rfl rfl (List.forall_mem_nil _) (ih hrest hlo)
    | value e =>
      obtain ⟨f, hf, h⟩ := bind_eq_ok.mp h
      obtain ⟨⟨rest, next'⟩, hrest, h⟩ := bind_eq_ok.mp h
      cases h
      obtain ⟨hnum, hreads⟩ := fragmentOf_numbered hf hlo
      exact hnum.append (.effect rfl rfl hreads (ih hrest (Nat.le_trans hlo hnum.le)))

theorem storeSteps_numbered {target : Text} {value : Operand}
    (h : ∀ r ∈ value.reads, lo ≤ r ∧ r < reg) : Numbered lo reg (storeSteps ns target value) reg :=
  .effect rfl rfl h (.effect rfl rfl (List.forall_mem_nil _) .nil)

/-- **The code of a statement is numbered**, and ends in a branch to lines. -/
theorem routineOf_numbered {line : Nat} {a : Action} {r : Routine}
    (h : routineOf ns line reg a = .ok r) :
    Numbered reg reg r.steps r.next ∧ (∀ x ∈ r.tail.reads, reg ≤ x ∧ x < r.next) ∧
      ∀ l ∈ r.tail.targets, ∃ k, l = ns.block k := by
  cases a with
  | assign target e =>
    obtain ⟨f, hf, h⟩ := bind_eq_ok.mp h
    cases h
    obtain ⟨hnum, hreads⟩ := fragmentOf_numbered hf (Nat.le_refl _)
    exact ⟨hnum.append (storeSteps_numbered hreads), List.forall_mem_nil _,
      List.forall_mem_singleton.2 ⟨_, rfl⟩⟩
  | branch c label =>
    obtain ⟨f, hf, h⟩ := bind_eq_ok.mp h
    cases h
    obtain ⟨hnum, hreads⟩ := fragmentOf_numbered hf (Nat.le_refl _)
    have hle := hnum.le
    have hflag : ∀ x ∈ [f.next], reg ≤ x ∧ x < f.next + 1 :=
      List.forall_mem_singleton.2 ⟨hle, Nat.lt_succ_self _⟩
    have hcompare : ∀ x ∈ f.value.reads ++ [], reg ≤ x ∧ x < f.next := by
      rwa [List.append_nil]
    refine ⟨hnum.append (.result rfl hcompare .nil), ?_⟩
    dsimp only
    cases ns.labels.find? label with
    | none => exact ⟨hflag, List.forall_mem_singleton.2 ⟨_, rfl⟩⟩
    | some target =>
      exact ⟨hflag, List.forall_mem_cons.2 ⟨⟨_, rfl⟩, List.forall_mem_singleton.2 ⟨_, rfl⟩⟩⟩
  | print items =>
    obtain ⟨⟨steps, next⟩, hsteps, h⟩ := bind_eq_ok.mp h
    cases h
    exact ⟨printSteps_numbered hsteps (Nat.le_refl _), List.forall_mem_nil _,
      List.forall_mem_singleton.2 ⟨_, rfl⟩⟩
  | input target =>
    cases h
    refine ⟨.result rfl (List.forall_mem_nil _) (storeSteps_numbered ?_), List.forall_mem_nil _,
      List.forall_mem_singleton.2 ⟨_, rfl⟩⟩
    exact List.forall_mem_singleton.2 ⟨Nat.le_refl _, Nat.lt_succ_self _⟩

end Routine

/-! ## What the blocks hold -/

variable {β : Type}

/-- What some blocks hold of something that instructions have. -/
def gathered (f : Instr → List β) (bs : List Block) : List β :=
  bs.flatMap fun b => b.instrs.flatMap f

theorem gathered_cons (f : Instr → List β) (b : Block) (bs : List Block) :
    gathered f (b :: bs) = b.instrs.flatMap f ++ gathered f bs := List.flatMap_cons

theorem gathered_putSecond {f : Instr → List β} {b : Block} (h : b.instrs.flatMap f = [])
    (bs : List Block) : gathered f (putSecond b bs) = gathered f bs := by
  cases bs with
  | nil => simp [putSecond, gathered, h]
  | cons first others => simp [putSecond, gathered, h]

theorem resultsOf_append (xs ys : List Instr) :
    resultsOf (xs ++ ys) = resultsOf xs ++ resultsOf ys := List.filterMap_append

variable {line : Nat} {tail : Tail}

/-- **Cutting keeps the order** of all but the reports. -/
theorem gathered_cutBlocks {f : Instr → List β} (hf : ∀ i, i.isReport = true → f i = [])
    (label : Label) (before : List Instr) (aux : Nat) (steps : List Step) :
    gathered f (cutBlocks line tail label before aux steps) =
      (before.reverse ++ steps.flatMap (Step.instrs line)).flatMap f := by
  have hundefined : ∀ text, f (.undefinedVariable text line) = [] := fun _ => hf _ rfl
  have hgoto : ∀ text, f (.illegalGoto text line) = [] := fun _ => hf _ rfl
  induction steps generalizing label before aux with
  | nil => cases tail <;> simp [cutBlocks, gathered, hgoto]
  | cons step rest ih =>
    cases step with
    | plain i =>
      rw [cutBlocks, ih, List.flatMap_cons, List.reverse_cons, List.append_assoc]
      rfl
    | guarded flag value slot text =>
      have hcut := ih (.aux aux) [.loadValue value slot] (aux + 2)
      rw [cutBlocks, gathered_cons, gathered_putSecond (by simp [hundefined]), hcut]
      simp [Step.instrs, hundefined]
    | abort =>
      have hcut := ih (.aux aux) [] (aux + 1)
      rw [cutBlocks, gathered_cons, hcut]
      simp [Step.instrs]

/-- Cutting keeps the registers that are assigned, in their order. -/
theorem cutBlocks_results (label : Label) (before : List Instr) (aux : Nat) (steps : List Step) :
    (cutBlocks line tail label before aux steps).flatMap Block.results =
      resultsOf before.reverse ++ resultsOf (steps.flatMap (Step.instrs line)) := by
  have hreport : ∀ i : Instr, i.isReport = true → i.dst?.toList = [] := by
    intro i hi
    cases i <;> first | rfl | cases hi
  have hblock : Block.results = fun b => b.instrs.flatMap fun i => i.dst?.toList :=
    funext fun b => List.filterMap_eq_flatMap_toList _ b.instrs
  rw [← resultsOf_append, resultsOf, List.filterMap_eq_flatMap_toList, hblock]
  exact gathered_cutBlocks hreport label before aux steps

/-- **Cutting keeps the order of the reports.** The first block holds none. -/
theorem cutBlocks_reports {f : Instr → List β} (hf : ∀ i, i.isReport = false → f i = [])
    {label : Label} {before : List Instr} {aux : Nat} {steps : List Step}
    (hbefore : ∀ i ∈ before, f i = []) (hsteps : ∀ i, .plain i ∈ steps → i.isFatal = false) :
    ∃ first others, cutBlocks line tail label before aux steps = first :: others ∧
      first.instrs.flatMap f = [] ∧
      gathered f others = (steps.flatMap (Step.instrs line) ++ tail.instrs line).flatMap f := by
  have hreverse : ∀ is : List Instr, (∀ i ∈ is, f i = []) → is.reverse.flatMap f = [] :=
    fun is his => List.flatMap_eq_nil_iff.2 fun i hi => his i (List.mem_reverse.1 hi)
  induction steps generalizing label before aux with
  | nil =>
    cases tail with
    | jump target => exact ⟨_, [], rfl, hreverse before hbefore, rfl⟩
    | fork flag yes no => exact ⟨_, [], rfl, hreverse before hbefore, rfl⟩
    | forkOrFail flag text no =>
      exact ⟨_, _, rfl, hreverse before hbefore, by simp [gathered, Tail.instrs]⟩
  | cons step rest ih =>
    have hrest : ∀ i, .plain i ∈ rest → i.isFatal = false :=
      fun i hi => hsteps i (List.mem_cons_of_mem _ hi)
    cases step with
    | plain i =>
      have hi : f i = [] := hf i (Instr.isReport_of_isFatal (hsteps i List.mem_cons_self))
      obtain ⟨first, others, hcut, hfirst, hothers⟩ :=
        @ih label (i :: before) aux (List.forall_mem_cons.2 ⟨hi, hbefore⟩) hrest
      refine ⟨first, others, hcut, hfirst, hothers.trans ?_⟩
      simp [Step.instrs, hi]
    | guarded flag value slot text =>
      obtain ⟨first, others, hcut, hfirst, hothers⟩ := @ih (.aux aux) [.loadValue value slot] (aux + 2)
        (List.forall_mem_singleton.2 (hf _ rfl)) hrest
      refine ⟨_, _, rfl, hreverse _ (List.forall_mem_cons.2 ⟨hf _ rfl, hbefore⟩), ?_⟩
      have hflag : f (.loadFlag flag slot) = [] := hf _ rfl
      have hvalue : f (.loadValue value slot) = [] := hf _ rfl
      rw [hcut, putSecond_cons, gathered_cons, gathered_cons, hothers]
      simp [Step.instrs, hfirst, hflag, hvalue]
    | abort =>
      obtain ⟨first, others, hcut, hfirst, hothers⟩ := @ih (.aux aux) [] (aux + 1)
        (List.forall_mem_nil _) hrest
      refine ⟨_, _, rfl, hreverse _ (List.forall_mem_cons.2 ⟨hf _ rfl, hbefore⟩), ?_⟩
      have herror : f (.syntaxError line) = [] := hf _ rfl
      rw [hcut, gathered_cons, hothers]
      simp [Step.instrs, hfirst, herror]

/-- **Control leaves each block at its end.** -/
theorem cutBlocks_closed {label : Label} {before : List Instr} {aux : Nat} {steps : List Step}
    (hlabel : label ≠ .exit) (hbefore : ∀ i ∈ before, i.isFatal = false)
    (hsteps : ∀ i, .plain i ∈ steps → i.isFatal = false) :
    ∀ b ∈ cutBlocks line tail label before aux steps, b.Closed := by
  have hreverse : ∀ is : List Instr, (∀ i ∈ is, i.isFatal = false) →
      ∀ i ∈ is.reverse, i.isFatal = false := fun is his i hi => his i (List.mem_reverse.1 hi)
  have hfailed : ∀ (id : Nat) (i : Instr), i.isFatal = true →
      Block.Closed ⟨.aux id, [] ++ [i], .unreachable⟩ :=
    fun id i hi => .failed (List.forall_mem_nil _) hi Label.noConfusion
  induction steps generalizing label before aux with
  | nil =>
    have honward : ∀ {term : Terminator}, term ≠ .ret ∧ term ≠ .unreachable →
        Block.Closed ⟨label, before.reverse, term⟩ :=
      fun hterm => .onward (hreverse before hbefore) hterm hlabel
    cases tail with
    | jump target => exact List.forall_mem_singleton.2 (honward ⟨nofun, nofun⟩)
    | fork flag yes no => exact List.forall_mem_singleton.2 (honward ⟨nofun, nofun⟩)
    | forkOrFail flag text no =>
      exact List.forall_mem_cons.2 ⟨honward ⟨nofun, nofun⟩,
        List.forall_mem_singleton.2 (hfailed aux _ rfl)⟩
  | cons step rest ih =>
    have hrest : ∀ i, .plain i ∈ rest → i.isFatal = false :=
      fun i hi => hsteps i (List.mem_cons_of_mem _ hi)
    cases step with
    | plain i =>
      exact ih hlabel (List.forall_mem_cons.2 ⟨hsteps i List.mem_cons_self, hbefore⟩) hrest
    | guarded flag value slot text =>
      refine List.forall_mem_cons.2 ⟨.onward (hreverse _ ?_) ⟨nofun, nofun⟩ hlabel, fun b hb => ?_⟩
      · exact List.forall_mem_cons.2 ⟨rfl, hbefore⟩
      · rcases mem_putSecond.1 hb with rfl | hb
        · exact hfailed _ _ rfl
        · exact ih Label.noConfusion (List.forall_mem_singleton.2 rfl) hrest b hb
    | abort =>
      refine List.forall_mem_cons.2 ⟨?_, ih Label.noConfusion (List.forall_mem_nil _) hrest⟩
      rw [List.reverse_cons]
      exact .failed (hreverse before hbefore) rfl hlabel

theorem label_mem_cutBlocks (label : Label) (before : List Instr) (aux : Nat) (steps : List Step) :
    label ∈ (cutBlocks line tail label before aux steps).map Block.label := by
  obtain ⟨n, hn⟩ := cutBlocks_labels line tail label before aux steps
  rw [hn]
  exact List.mem_cons_self

/-- A block branches to where the code ends, or to another block of the code. -/
theorem cutBlocks_targets {label : Label} {before : List Instr} {aux : Nat} {steps : List Step}
    {b : Block} (hb : b ∈ cutBlocks line tail label before aux steps) {l : Label}
    (hl : l ∈ b.terminator.targets) :
    l ∈ tail.targets ∨ ∃ id, aux ≤ id ∧ l = .aux id ∧
      l ∈ (cutBlocks line tail label before aux steps).map Block.label := by
  induction steps generalizing label before aux with
  | nil =>
    cases tail with
    | jump target =>
      cases List.mem_singleton.1 hb
      exact .inl hl
    | fork flag yes no =>
      cases List.mem_singleton.1 hb
      exact .inl hl
    | forkOrFail flag text no =>
      rcases List.mem_cons.1 hb with rfl | hb
      · rcases List.mem_cons.1 hl with rfl | hl
        · exact .inr ⟨aux, Nat.le_refl _, rfl, by simp [cutBlocks]⟩
        · exact .inl hl
      · cases List.mem_singleton.1 hb
        cases hl
  | cons step rest ih =>
    cases step with
    | plain i => exact ih hb
    | guarded flag value slot text =>
      have hmem : ∀ {x : Label}, x = .aux (aux + 1) ∨ x ∈ (cutBlocks line tail (.aux aux)
          [.loadValue value slot] (aux + 2) rest).map Block.label →
          x ∈ (cutBlocks line tail label before aux
            (.guarded flag value slot text :: rest)).map Block.label := by
        intro x hx
        rw [cutBlocks, List.map_cons]
        refine List.mem_cons_of_mem _ (List.mem_map.2 ?_)
        rcases hx with rfl | hx
        · exact ⟨_, mem_putSecond.2 (.inl rfl), rfl⟩
        · obtain ⟨y, hy, rfl⟩ := List.mem_map.1 hx
          exact ⟨y, mem_putSecond.2 (.inr hy), rfl⟩
      rw [cutBlocks, List.mem_cons, mem_putSecond] at hb
      rcases hb with rfl | rfl | hb
      · rcases List.mem_cons.1 hl with rfl | hl
        · exact .inr ⟨aux, Nat.le_refl _, rfl, hmem (.inr (label_mem_cutBlocks _ _ _ _))⟩
        · cases List.mem_singleton.1 hl
          exact .inr ⟨aux + 1, Nat.le_succ _, rfl, hmem (.inl rfl)⟩
      · cases hl
      · refine (ih hb).imp_right ?_
        rintro ⟨id, hid, rfl, h⟩
        exact ⟨id, by omega, rfl, hmem (.inr h)⟩
    | abort =>
      rw [cutBlocks, List.mem_cons] at hb
      rcases hb with rfl | hb
      · cases hl
      · refine (ih hb).imp_right ?_
        rintro ⟨id, hid, rfl, h⟩
        exact ⟨id, by omega, rfl, List.mem_cons_of_mem _ h⟩

/-! ## Registers of earlier blocks -/

section Available

variable {M : Module} {label : Label} {aux r : Nat}

/-- A register is assigned in a block other than `label`, with a number below `aux` if it has one,
and every way to `label` goes through it. -/
def Module.Earlier (M : Module) (label : Label) (aux r : Nat) : Prop :=
  ∃ a ∈ M.blocks, r ∈ a.results ∧ a.label ≠ label ∧ (∀ id, a.label = .aux id → id < aux) ∧
    M.Dominates a.label label

/-- What instructions at the head of a block read is assigned before. -/
def Module.Grounded (M : Module) (label : Label) (aux : Nat) (is : List Instr) : Prop :=
  ∀ pre i post, is = pre ++ i :: post → ∀ r ∈ i.reads, r ∈ resultsOf pre ∨ M.Earlier label aux r

theorem Module.Grounded.nil : M.Grounded label aux [] := by
  intro pre i post h
  cases pre <;> cases h

theorem Module.Grounded.snoc {is : List Instr} {i : Instr} (h : M.Grounded label aux is)
    (hi : ∀ r ∈ i.reads, r ∈ resultsOf is ∨ M.Earlier label aux r) :
    M.Grounded label aux (is ++ [i]) := by
  intro pre j post heq
  rcases List.eq_nil_or_concat post with rfl | ⟨post, k, rfl⟩
  · obtain ⟨rfl, hij⟩ := List.append_inj' heq rfl
    cases hij
    exact hi
  · rw [List.concat_eq_append, ← List.cons_append, ← List.append_assoc] at heq
    exact h pre j post (List.append_inj' heq rfl).1

/-- The instructions before a cut are kept newest first. -/
theorem Module.Grounded.push {before : List Instr} {i : Instr}
    (h : M.Grounded label aux before.reverse)
    (hi : ∀ r ∈ i.reads, r ∈ resultsOf before.reverse ∨ M.Earlier label aux r) :
    M.Grounded label aux (i :: before).reverse := by
  rw [List.reverse_cons]
  exact h.snoc hi

/-- A register that is assigned stays assigned behind one more instruction. -/
theorem Module.known_push {before : List Instr} (i : Instr)
    (h : r ∈ resultsOf before.reverse ∨ M.Earlier label aux r) :
    r ∈ resultsOf (i :: before).reverse ∨ M.Earlier label aux r := by
  rw [List.reverse_cons, resultsOf_append, List.mem_append]
  exact h.imp_left .inl

/-- The register that an instruction assigns is assigned behind it. -/
theorem mem_resultsOf_push {before : List Instr} {i : Instr} (h : i.dst? = some r) :
    r ∈ resultsOf (i :: before).reverse := by
  rw [List.reverse_cons, resultsOf_append]
  exact List.mem_append_right _ (by simp [resultsOf, h])

/-- A block is in order if its instructions and its terminator are. -/
theorem Module.Grounded.available {is : List Instr} {term : Terminator} (h : M.Grounded label aux is)
    {before : List Instr} (hread : (⟨label, is, term⟩ : Block).ReadsAfter before r)
    (hterm : ∀ r ∈ term.reads, r ∈ resultsOf is ∨ M.Earlier label aux r) :
    M.Available ⟨label, is, term⟩ before r := by
  have hof : ∀ {is' : List Instr}, r ∈ resultsOf is' ∨ M.Earlier label aux r →
      M.Available ⟨label, is, term⟩ is' r := by
    rintro is' (h | ⟨a, ha, hr, hne, -, hdom⟩)
    · exact .inl h
    · exact .inr ⟨a, ha, hr, hne, hdom⟩
  cases hread with
  | instr hsplit hr => exact hof (h _ _ _ hsplit r hr)
  | terminator hr => exact hof (hterm r hr)

/-- A block that only reports an error reads no register. -/
theorem Block.not_readsAfter {i : Instr} (hi : i.reads = []) {before : List Instr} :
    ¬ (⟨label, [i], .unreachable⟩ : Block).ReadsAfter before r := by
  rintro (⟨hsplit, hr⟩ | hr)
  · have hmem := hsplit ▸ List.mem_append_right before List.mem_cons_self
    rw [List.mem_singleton.1 hmem, hi] at hr
    cases hr
  · cases hr

/-- What is assigned before a block of the chain, or in it, is assigned before the next one. -/
theorem Module.Earlier.next {is : List Instr} {term : Terminator} {aux' : Nat}
    (hblock : ⟨label, is, term⟩ ∈ M.blocks) (hlabel : ∀ id, label = .aux id → id < aux)
    (hedge : ∀ a, M.Edge a (.aux aux) → a = label) (haux : aux ≤ aux')
    (h : r ∈ resultsOf is ∨ M.Earlier label aux r) : M.Earlier (.aux aux) aux' r := by
  have hne : ∀ {l : Label}, (∀ id, l = .aux id → id < aux) → l ≠ .aux aux :=
    fun hl heq => Nat.lt_irrefl _ (hl _ heq)
  have hdom : ∀ {l : Label}, M.Dominates l label → M.Dominates l (.aux aux) := by
    intro l hl
    refine Module.dominates_of_edges nofun fun a ha => ?_
    rwa [hedge a ha]
  rcases h with hr | ⟨a, ha, hr, -, hid, hd⟩
  · exact ⟨_, hblock, hr, hne hlabel, fun id h => Nat.lt_of_lt_of_le (hlabel id h) haux,
      hdom (Module.dominates_self _)⟩
  · exact ⟨a, ha, hr, hne hid, fun id h => Nat.lt_of_lt_of_le (hid id h) haux, hdom hd⟩

end Available

/-! ## The chain of blocks -/

/-- No block but those of a list branches to the blocks of the list that are numbered from `aux`
on. -/
def Module.Owns (M : Module) (aux : Nat) (bs : List Block) : Prop :=
  ∀ x ∈ M.blocks, ∀ id, aux ≤ id → .aux id ∈ bs.map Block.label →
    .aux id ∈ x.terminator.targets → x ∈ bs

section Chain

variable {M : Module} {aux aux' : Nat} {first : Block} {bs inner : List Block}

/-- Behind the first block of a list, the other ones that branch are a list of their own. -/
theorem Module.Owns.behind (h : M.Owns aux (first :: bs)) (haux : aux ≤ aux') (hsub : inner ⊆ bs)
    (hbs : ∀ x ∈ bs, x ∈ inner ∨ x.terminator.targets = [])
    (hfirst : ∀ id, aux' ≤ id → .aux id ∉ first.terminator.targets) : M.Owns aux' inner := by
  intro x hx id hid hin htarget
  have hin' : .aux id ∈ (first :: bs).map Block.label :=
    List.mem_cons_of_mem _ (List.map_subset _ hsub hin)
  rcases List.mem_cons.1 (h x hx id (Nat.le_trans haux hid) hin' htarget) with rfl | hmem
  · exact absurd htarget (hfirst id hid)
  rcases hbs x hmem with hx | hnone
  · exact hx
  · rw [hnone] at htarget
    cases htarget

/-- The next block of the chain is entered from the first one only. -/
theorem Module.Owns.edge {before : List Instr} {rest : List Step} (h : M.Owns aux (first :: bs))
    (haux : aux < aux') (htargets : ∀ l ∈ tail.targets, ∀ id, l ≠ .aux id)
    (hsub : cutBlocks line tail (.aux aux) before aux' rest ⊆ bs)
    (hbs : ∀ x ∈ bs, x ∈ cutBlocks line tail (.aux aux) before aux' rest ∨ x.terminator.targets = [])
    (a : Label) (hedge : M.Edge a (.aux aux)) : a = first.label := by
  obtain ⟨x, hx, rfl, htarget⟩ := hedge
  have hin : .aux aux ∈ (first :: bs).map Block.label :=
    List.mem_cons_of_mem _ (List.map_subset _ hsub (label_mem_cutBlocks _ _ _ _))
  rcases List.mem_cons.1 (h x hx aux (Nat.le_refl _) hin htarget) with rfl | hmem
  · rfl
  exfalso
  rcases hbs x hmem with hcut | hnone
  · rcases cutBlocks_targets hcut htarget with hout | ⟨id, hid, heq, -⟩
    · exact htargets _ hout aux rfl
    · cases heq
      omega
  · rw [hnone] at htarget
    cases htarget

end Chain

/-- What a cut in the middle of numbered code finds, in a module that has the blocks `bs` of what
follows. No other block branches to the numbered ones among them; the registers that are assigned so
far, from `lo` up to `reg`, have their values; and what is already in the current block is in order. -/
structure Module.InChain (M : Module) (lo reg : Nat) (label : Label) (before : List Instr)
    (aux : Nat) (bs : List Block) : Prop where
  blocks : bs ⊆ M.blocks
  owns : M.Owns aux bs
  below : ∀ id, label = .aux id → id < aux
  known : ∀ r, lo ≤ r → r < reg → r ∈ resultsOf before.reverse ∨ M.Earlier label aux r
  grounded : M.Grounded label aux before.reverse

namespace Module.InChain

variable {M : Module} {lo reg aux : Nat} {label : Label} {before : List Instr} {bs : List Block}

/-- One more instruction in the current block. -/
theorem effect {i : Instr} (h : M.InChain lo reg label before aux bs)
    (hreads : ∀ r ∈ i.reads, lo ≤ r ∧ r < reg) : M.InChain lo reg label (i :: before) aux bs :=
  { h with
    known := fun r hlo hr => Module.known_push i (h.known r hlo hr)
    grounded := h.grounded.push fun r hr => h.known r (hreads r hr).1 (hreads r hr).2 }

/-- One more instruction in the current block, which assigns the next register. -/
theorem result {i : Instr} (h : M.InChain lo reg label before aux bs) (hdst : i.dst? = some reg)
    (hreads : ∀ r ∈ i.reads, lo ≤ r ∧ r < reg) :
    M.InChain lo (reg + 1) label (i :: before) aux bs := by
  refine { h.effect hreads with known := fun r hlo hr => ?_ }
  rcases Nat.lt_succ_iff_lt_or_eq.1 hr with hr | rfl
  · exact (h.effect hreads).known r hlo hr
  · exact .inl (mem_resultsOf_push hdst)

/-- The code goes on in the next block of the chain. -/
theorem cut {term : Terminator} {start : List Instr} {aux' : Nat} {rest : List Step}
    (h : M.InChain lo reg label before aux (⟨label, before.reverse, term⟩ :: bs)) (haux : aux < aux')
    (htargets : ∀ l ∈ tail.targets, ∀ id, l ≠ .aux id)
    (hsub : cutBlocks line tail (.aux aux) start aux' rest ⊆ bs)
    (hbs : ∀ x ∈ bs, x ∈ cutBlocks line tail (.aux aux) start aux' rest ∨ x.terminator.targets = [])
    (hterm : ∀ id, aux' ≤ id → .aux id ∉ term.targets) :
    M.InChain lo reg (.aux aux) [] aux' (cutBlocks line tail (.aux aux) start aux' rest) where
  blocks := fun x hx => h.blocks (List.mem_cons_of_mem _ (hsub hx))
  owns := h.owns.behind (Nat.le_of_lt haux) hsub hbs hterm
  below := by
    rintro id ⟨⟩
    exact haux
  known := fun r hlo hr => .inr (Module.Earlier.next (h.blocks List.mem_cons_self) h.below
    (h.owns.edge haux htargets hsub hbs) (Nat.le_of_lt haux) (h.known r hlo hr))
  grounded := .nil

end Module.InChain

/-- Where the code ends, the current block is in order, and a block that reports an error reads
nothing. -/
theorem cutBlocks_nil_available {M : Module} {label : Label} {before : List Instr} {aux : Nat}
    (hbefore : M.Grounded label aux before.reverse)
    (hreads : ∀ r ∈ tail.reads, r ∈ resultsOf before.reverse ∨ M.Earlier label aux r) :
    ∀ b ∈ cutBlocks line tail label before aux [],
      ∀ pre r, b.ReadsAfter pre r → M.Available b pre r := by
  intro b hb pre r hread
  cases tail with
  | jump target =>
    cases List.mem_singleton.1 hb
    exact hbefore.available hread (List.forall_mem_nil _)
  | fork flag yes no =>
    cases List.mem_singleton.1 hb
    exact hbefore.available hread hreads
  | forkOrFail flag text no =>
    rcases List.mem_cons.1 hb with rfl | hb
    · exact hbefore.available hread hreads
    · cases List.mem_singleton.1 hb
      exact absurd hread (Block.not_readsAfter rfl)

/-- **Every register that is read in the blocks of numbered code has its value**, in a module that
has these blocks and in which no other block branches to the numbered ones among them. -/
theorem cutBlocks_available {M : Module} {lo next : Nat}
    (htail : ∀ r ∈ tail.reads, lo ≤ r ∧ r < next)
    (htargets : ∀ l ∈ tail.targets, ∀ id, l ≠ .aux id)
    {label : Label} {before : List Instr} {aux reg : Nat} {steps : List Step}
    (hnum : Numbered lo reg steps next)
    (hchain : M.InChain lo reg label before aux (cutBlocks line tail label before aux steps)) :
    ∀ b ∈ cutBlocks line tail label before aux steps,
      ∀ pre r, b.ReadsAfter pre r → M.Available b pre r := by
  -- by the steps, each of which leaves the cut behind it in the chain
  induction hnum generalizing label before aux with
  | @nil reg =>
    exact cutBlocks_nil_available hchain.grounded
      fun r hr => hchain.known r (htail r hr).1 (htail r hr).2
  | effect hdst hfatal hreads h ih => exact ih htail (hchain.effect hreads)
  | result hdst hreads h ih => exact ih htail (hchain.result hdst hreads)
  | @guarded reg next slot text rest h ih =>
    rw [cutBlocks] at hchain ⊢
    have hflag := hchain.result (i := .loadFlag reg slot) rfl (List.forall_mem_nil _)
    have hfork : ∀ id, aux + 2 ≤ id →
        .aux id ∉ (Terminator.fork reg (.aux aux) (.aux (aux + 1))).targets := by
      intro id hid htarget
      have hcases : id = aux ∨ id = aux + 1 := by simpa [Terminator.targets] using htarget
      omega
    have hvalue := (hflag.cut (Nat.lt_add_of_pos_right Nat.two_pos) htargets
      (fun x hx => mem_putSecond.2 (.inr hx))
      (fun x hx => (mem_putSecond.1 hx).symm.imp_right fun heq => by rw [heq]; rfl) hfork).result
        (i := .loadValue (reg + 1) slot) rfl (List.forall_mem_nil _)
    intro b hb
    rcases List.mem_cons.1 hb with rfl | hb
    · intro pre r hread
      exact hflag.grounded.available hread
        (List.forall_mem_singleton.2 (.inl (mem_resultsOf_push rfl)))
    rcases mem_putSecond.1 hb with rfl | hb
    · intro pre r hread
      exact absurd hread (Block.not_readsAfter rfl)
    · exact ih htail hvalue b hb
  | @abort reg next rest h ih =>
    rw [cutBlocks] at hchain ⊢
    have hstop := hchain.effect (i := .syntaxError line) (List.forall_mem_nil _)
    have hnext := hstop.cut (Nat.lt_succ_self _) htargets (List.Subset.refl _)
      (fun x hx => .inl hx) fun _ _ => List.not_mem_nil
    intro b hb
    rcases List.mem_cons.1 hb with rfl | hb
    · intro pre r hread
      exact hstop.grounded.available hread (List.forall_mem_nil _)
    · exact ih htail hnext b hb

end TinyLang.Code
