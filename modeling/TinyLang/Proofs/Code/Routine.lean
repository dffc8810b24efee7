import TinyLang.Proofs.Code.Layout
import TinyLang.Proofs.Program.Labels

/-!
# What the code of a statement does

The code of an expression, a print list or an action, executed in a state that holds the variables
of a machine, against what the machine does.

* `fragmentOf_exec`: the code of an expression leaves its value in its operand and changes nothing
  but fresh registers. If the expression has no value, the code ends the program for the same
  reason.
* `printSteps_exec`: the code of a print list finishes one line, with the items of the list.
* `routineOf_exec`: the code of an action, with its end, goes on at the block of the line that the
  machine goes on at, in a state that matches the machine again (`Matches`).
-/

namespace TinyLang

/-! ## Reasons to stop -/

/-- How code ends where a machine stops. Output that is full and trees without a meaning have no
counterpart. -/
def Stop.halt? : Stop → Option Code.Halt
  | .failed ⟨line, .undefinedVariable name⟩ => some (.undefinedVariable name line)
  | .failed ⟨line, .illegalGoto label⟩ => some (.illegalGoto label line)
  | .failed ⟨line, .malformed _⟩ => some (.syntaxError line)
  | .failed ⟨line, .badInput⟩ => some (.badInput line)
  | .outputFull => none
  | .defective _ => none

/-- What the reads of a machine deliver, one after the other: a number, or none where a read
fails. -/
def Machine.delivered (m : Machine) : Nat → Option Number
  | 0 => (m.readNumber 0).2.toOption
  | n + 1 => (m.readNumber 0).1.delivered n

theorem Machine.delivered_congr {m m' : Machine} (h : m.input = m'.input) (n : Nat) :
    m.delivered n = m'.delivered n := by
  induction n generalizing m m' with
  | zero =>
    unfold Machine.delivered Machine.readNumber
    rw [h]
    cases m'.input.takeLine? <;> rfl
  | succ n ih =>
    unfold Machine.delivered
    apply ih
    unfold Machine.readNumber
    rw [h]
    cases m'.input.takeLine? with
    | none => exact h
    | some line => rfl

/-- The value of an operator between two expressions. -/
theorem Expr.eval_binary {vars : Table Number} {op : Operator} {left right : Expr}
    {x y z : Number} {line : Int} (hl : left.eval vars line = .ok x)
    (hr : right.eval vars line = .ok y) (hop : op.result? x y = some z) :
    (Expr.binary op left right).eval vars line = .ok z := by
  simp only [Expr.eval, hl, hr, bind, Except.bind, hop]

theorem Expr.eval_binary_left {vars : Table Number} {op : Operator} {left right : Expr}
    {stop : Stop} {line : Int} (hl : left.eval vars line = .error stop) :
    (Expr.binary op left right).eval vars line = .error stop := by
  simp only [Expr.eval, hl, bind, Except.bind]

theorem Expr.eval_binary_right {vars : Table Number} {op : Operator} {left right : Expr}
    {x : Number} {stop : Stop} {line : Int} (hl : left.eval vars line = .ok x)
    (hr : right.eval vars line = .error stop) :
    (Expr.binary op left right).eval vars line = .error stop := by
  simp only [Expr.eval, hl, hr, bind, Except.bind]

/-- A read changes nothing but the input, and takes the first of the values delivered. -/
theorem Machine.readNumber_delivered (m : Machine) (line : Int) :
    ∃ rest, (m.readNumber line).1 = { m with input := rest } ∧
      (∀ k, (m.readNumber line).1.delivered k = m.delivered (k + 1)) ∧
      (m.readNumber line).2 =
        match m.delivered 0 with
        | some v => .ok v
        | none => .error (.failed ⟨line, .badInput⟩) := by
  have hline : (m.readNumber line).1 = (m.readNumber 0).1 := by
    unfold Machine.readNumber
    cases m.input.takeLine? <;> rfl
  rw [hline]
  have hfirst : m.delivered 0 = (m.readNumber 0).2.toOption := rfl
  rw [hfirst]
  cases htake : m.input.takeLine? with
  | none =>
    refine ⟨m.input, ?_, fun _ => rfl, ?_⟩ <;> simp [Machine.readNumber, htake, Except.toOption]
  | some l =>
    obtain ⟨text, rest⟩ := l
    refine ⟨rest, ?_, fun _ => rfl, ?_⟩
    · simp [Machine.readNumber, htake]
    · cases hread : Number.read? text.trim <;>
        simp [Machine.readNumber, htake, hread, Except.toOption]

namespace Code

/-! ## Slots and texts -/

/-- What the code of statements refers to. -/
def Names.surroundings (ns : Names) (input : Nat → Option Number) : Surroundings :=
  ⟨ns.slots, ns.texts, input⟩

/-- The slots and texts that are asked for are there. -/
def Names.Supplies (ns : Names) (gs : List Global) : Prop :=
  (∀ name, .slot name ∈ gs → name ∈ ns.slots) ∧ ∀ t, .text t ∈ gs → t ∈ ns.texts

theorem Names.Supplies.mono {ns : Names} {gs gs' : List Global} (h : ns.Supplies gs')
    (hsub : gs ⊆ gs') : ns.Supplies gs :=
  ⟨fun name hn => h.1 name (hsub hn), fun t ht => h.2 t (hsub ht)⟩

theorem mem_firstOccurrences {gs : List Global} {g : Global} :
    g ∈ firstOccurrences gs ↔ g ∈ gs := by
  have hfold : ∀ seen : List Global,
      g ∈ gs.foldl (fun seen g => if g ∈ seen then seen else g :: seen) seen ↔
        g ∈ seen ∨ g ∈ gs := by
    induction gs with
    | nil => simp
    | cons x gs ih =>
      intro seen
      rw [List.foldl_cons, ih, List.mem_cons]
      by_cases hx : x ∈ seen
      · rw [if_pos hx]
        constructor
        · rintro (h | h) <;> simp [h]
        · rintro (h | rfl | h) <;> simp [*]
      · rw [if_neg hx, List.mem_cons]
        constructor
        · rintro ((h | h) | h) <;> simp [h]
        · rintro (h | h | h) <;> simp [h]
  unfold firstOccurrences
  rw [List.mem_reverse, hfold]
  simp

/-- A program's slots and texts are enough for each of its statements. -/
theorem namesOf_supplies {p : Program} {line : Int} {s : Stmt} (hs : p.stmt? line = some s) :
    (namesOf p).Supplies (demandsOfAction p.labels s.action) := by
  have hmem : (line.toNat, s) ∈ p.statements := by
    rw [Program.mem_statements, Int.toNat_of_nonneg]
    · exact hs
    · have := (Program.stmt?_le_size hs).1
      omega
  have hglobal : ∀ g ∈ demandsOfAction p.labels s.action, g ∈ globalsOf p := fun g hg =>
    mem_firstOccurrences.mpr (List.mem_flatMap.mpr ⟨_, hmem, hg⟩)
  exact ⟨fun name hn => List.mem_filterMap.mpr ⟨_, hglobal _ hn, rfl⟩,
    fun t ht => List.mem_filterMap.mpr ⟨_, hglobal _ ht, rfl⟩⟩

/-! ## Registers -/

/-- Nothing has changed but registers from `n` on. -/
structure Keeps (n : Nat) (s s' : State) : Prop where
  rest : s' = { s with regs := s'.regs }
  regs : ∀ r < n, s'.regs r = s.regs r

theorem Keeps.refl (n : Nat) (s : State) : Keeps n s s := ⟨rfl, fun _ _ => rfl⟩

theorem Keeps.trans {n : Nat} {s s' s'' : State} (h : Keeps n s s') (h' : Keeps n s' s'') :
    Keeps n s s'' := by
  refine ⟨?_, fun r hr => (h'.regs r hr).trans (h.regs r hr)⟩
  rw [h'.rest, h.rest]

theorem Keeps.lines {n : Nat} {s s' : State} (h : Keeps n s s') : s'.lines = s.lines := by
  rw [h.rest]

theorem Keeps.mono {n n' : Nat} {s s' : State} (h : Keeps n' s s') (hle : n ≤ n') :
    Keeps n s s' :=
  ⟨h.rest, fun r hr => h.regs r (Nat.lt_of_lt_of_le hr hle)⟩

theorem Keeps.put {n r : Nat} (h : n ≤ r) (s : State) (v : Value) : Keeps n s (s.put r v) := by
  refine ⟨rfl, fun i hi => ?_⟩
  have hne : i ≠ r := by omega
  simp [State.put, hne]

/-- The operand is a constant or a register below `n`. -/
def Operand.Below (n : Nat) : Operand → Prop
  | .reg r => r < n
  | .const _ => True

theorem Keeps.number? {n : Nat} {s s' : State} (h : Keeps n s s') {o : Operand} (ho : o.Below n) :
    s'.number? o = s.number? o := by
  cases o with
  | const v => rfl
  | reg r => simp only [State.number?, h.regs r ho]

@[simp] theorem State.number?_put (s : State) (r : Nat) (v : Number) :
    (s.put r (.number v)).number? (.reg r) = some v := by
  simp [State.put, State.number?]

/-! ## Expressions -/

/-- The flags and values of the slots are the variables. -/
def Holds (slots : List Text) (vars : Table Number) (s : State) : Prop :=
  ∀ name, s.value? slots name = vars.find? name

theorem Holds.keeps {slots : List Text} {vars : Table Number} {n : Nat} {s s' : State}
    (h : Holds slots vars s) (hk : Keeps n s s') : Holds slots vars s' := by
  intro name
  rw [hk.rest]
  exact h name

theorem selectInstr_arith {op : Operator} {a : Arith} (h : selectInstr op = some (.inl a))
    (x y : Number) : op.result? x y = some (a.apply x y) := by
  cases op <;> cases h <;> rfl

theorem selectInstr_relation {op : Operator} {rel : Relation}
    (h : selectInstr op = some (.inr rel)) (x y : Number) :
    op.result? x y = some (.ofBool (rel.holds x y)) := by
  cases op <;> cases h <;> rfl

/-- The fragment is the code of an operator, behind the code of its two sides. -/
def Fragment.Joins (op : Operator) (l r f : Fragment) : Prop :=
  (∃ a, selectInstr op = some (.inl a) ∧
    f = ⟨l.steps ++ r.steps ++ [.plain (.arith r.next a l.value r.value)], .reg r.next,
      r.next + 1⟩) ∨
  ∃ rel, selectInstr op = some (.inr rel) ∧
    f = ⟨l.steps ++ r.steps ++ [.plain (.compare r.next rel l.value r.value),
      .plain (.widen (r.next + 1) r.next)], .reg (r.next + 1), r.next + 2⟩

theorem fragmentOf_binary {ns : Names} {reg : Nat} {op : Operator} {left right : Expr}
    {f : Fragment} (h : fragmentOf ns reg (.binary op left right) = .ok f) :
    ∃ l r, fragmentOf ns reg left = .ok l ∧ fragmentOf ns l.next right = .ok r ∧
      Fragment.Joins op l r f := by
  rw [fragmentOf] at h
  obtain ⟨l, hl, h⟩ := bind_eq_ok.mp h
  obtain ⟨r, hr, h⟩ := bind_eq_ok.mp h
  refine ⟨l, r, hl, hr, ?_⟩
  rcases hsel : selectInstr op with _ | a | rel
  · rw [hsel] at h
    cases h
  · rw [hsel] at h
    cases h
    exact .inl ⟨a, hsel, rfl⟩
  · rw [hsel] at h
    cases h
    exact .inr ⟨rel, hsel, rfl⟩

/-- The registers of a fragment are those from `reg` up to its `next`. -/
theorem fragmentOf_next {ns : Names} {reg : Nat} {e : Expr} {f : Fragment}
    (h : fragmentOf ns reg e = .ok f) : reg ≤ f.next ∧ f.value.Below f.next := by
  induction e generalizing reg f with
  | var name =>
    cases h
    exact ⟨by simp, Nat.lt_succ_self _⟩
  | number text =>
    rw [fragmentOf] at h
    cases hread : Number.read? text with
    | none => simp [hread] at h
    | some v =>
      simp only [hread] at h
      cases h
      exact ⟨Nat.le_refl _, trivial⟩
  | quotation text =>
    cases h
    exact ⟨Nat.le_refl _, trivial⟩
  | binary op left right ihl ihr =>
    obtain ⟨l, r, hl, hr, ⟨a, -, rfl⟩ | ⟨rel, -, rfl⟩⟩ := fragmentOf_binary h
    · have := (ihl hl).1
      have := (ihr hr).1
      exact ⟨by simp only; omega, Nat.lt_succ_self _⟩
    · have := (ihl hl).1
      have := (ihr hr).1
      exact ⟨by simp only; omega, Nat.lt_succ_self _⟩
  | hole => cases h

/-- What code comes to where an expression comes to `x`: the value of the operand, or the end of
the program for the reason that the expression has no value. -/
def Yields (reg : Nat) (s : State) (value : Operand) (result : Result) :
    Except Stop Number → Prop
  | .ok v => ∃ s', result = .ok s' ∧ Keeps reg s s' ∧ s'.number? value = some v
  | .error stop => ∃ halt s', result = .error (halt, s') ∧ Keeps reg s s' ∧ stop.halt? = some halt

section Exec

variable {ns : Names} {input : Nat → Option Number} {line : Nat} {vars : Table Number} {s : State}

theorem Names.slot_lt {name : Text} (h : name ∈ ns.slots) :
    ns.slot name < (ns.surroundings input).slots.length :=
  List.idxOf_lt_length_of_mem h

theorem Names.getElem?_text {t : Text} (h : t ∈ ns.texts) :
    (ns.surroundings input).texts[ns.text t]? = some t :=
  List.getElem?_idxOf h

/-- A guarded read of a variable. -/
theorem Step.exec_guarded {reg : Nat} {name : Text} (hslot : name ∈ ns.slots)
    (htext : name ∈ ns.texts) (hvars : Holds ns.slots vars s) (hline : lineWord line = line) :
    Yields reg s (.reg (reg + 1))
      ((Step.guarded reg (reg + 1) (ns.slot name) (ns.text name)).exec (ns.surroundings input)
        line s)
      ((Expr.var name).eval vars line) := by
  have hfind := hvars name
  have hkeep : ∀ b, Keeps reg s (s.put reg (.flag b)) := fun b => Keeps.put (Nat.le_refl _) s _
  unfold State.value? at hfind
  simp only [Expr.eval]
  cases hflag : s.flags (ns.slot name) with
  | true =>
    rw [if_pos ⟨hslot, hflag⟩] at hfind
    rw [← hfind, Step.exec_guarded_set (Names.slot_lt hslot) hflag]
    exact ⟨_, rfl, (hkeep true).trans (Keeps.put (Nat.le_succ _) _ _), State.number?_put _ _ _⟩
  | false =>
    have hneg : ¬ (name ∈ ns.slots ∧ s.flags (ns.slots.idxOf name) = true) := fun h =>
      Bool.false_ne_true (hflag.symm.trans h.2)
    rw [if_neg hneg] at hfind
    rw [← hfind, Step.exec_guarded_unset (Names.slot_lt hslot) hflag]
    refine ⟨_, _, rfl, hkeep false, ?_⟩
    rw [undefinedHalt, Names.getElem?_text htext, hline]
    rfl

theorem Instr.exec_arith {dst : Nat} {op : Arith} {a b : Operand} {env : Surroundings}
    {x y : Number} (ha : s.number? a = some x) (hb : s.number? b = some y) :
    (Instr.arith dst op a b).exec env s = .ok (s.put dst (.number (op.apply x y))) := by
  simp only [Instr.exec, ha, hb]

theorem Instr.exec_compare {dst : Nat} {rel : Relation} {a b : Operand} {env : Surroundings}
    {x y : Number} (ha : s.number? a = some x) (hb : s.number? b = some y) :
    (Instr.compare dst rel a b).exec env s = .ok (s.put dst (.flag (rel.holds x y))) := by
  simp only [Instr.exec, ha, hb]

theorem Instr.exec_widen {dst flag : Nat} {b : Bool} {env : Surroundings}
    (h : s.flag? flag = some b) :
    (Instr.widen dst flag).exec env s = .ok (s.put dst (.number (.ofBool b))) := by
  simp only [Instr.exec, h]

/-- An operator is applied to what its two sides left in their operands. -/
theorem Fragment.Joins.exec {op : Operator} {l r f : Fragment} (h : Fragment.Joins op l r f)
    {env : Surroundings} {reg : Nat} {s₂ : State} {x y : Number}
    (hexec : execSteps env line (l.steps ++ r.steps) s = .ok s₂) (hkeep : Keeps reg s s₂)
    (hle : reg ≤ r.next) (hx : s₂.number? l.value = some x) (hy : s₂.number? r.value = some y) :
    ∃ z s', op.result? x y = some z ∧ execSteps env line f.steps s = .ok s' ∧ Keeps reg s s' ∧
      s'.number? f.value = some z := by
  rcases h with ⟨a, hsel, rfl⟩ | ⟨rel, hsel, rfl⟩
  · refine ⟨_, _, selectInstr_arith hsel x y, ?_, hkeep.trans (Keeps.put hle s₂ _),
      State.number?_put _ _ _⟩
    rw [execSteps_append_ok _ hexec, execSteps_singleton, Step.exec, Instr.exec_arith hx hy]
  · refine ⟨_, _, selectInstr_relation hsel x y, ?_, (hkeep.trans
      (Keeps.put hle s₂ (.flag (rel.holds x y)))).trans (Keeps.put (Nat.le_succ_of_le hle) _ _),
      State.number?_put _ _ _⟩
    rw [execSteps_append_ok _ hexec, execSteps_plain_ok _ (Instr.exec_compare hx hy),
      execSteps_singleton, Step.exec, Instr.exec_widen (State.flag?_put _ _ _)]

variable (input) in
/-- **The code of an expression** gives its value, or ends the program where it has none. -/
theorem fragmentOf_exec {reg : Nat} {e : Expr} {f : Fragment} (hf : fragmentOf ns reg e = .ok f)
    (hsup : ns.Supplies (demandsOfExpr e)) (hvars : Holds ns.slots vars s)
    (hline : lineWord line = line) :
    Yields reg s f.value (execSteps (ns.surroundings input) line f.steps s)
      (e.eval vars line) := by
  induction e generalizing reg f s with
  | var name =>
    cases hf
    rw [execSteps_singleton]
    exact Step.exec_guarded (hsup.1 name (by simp [demandsOfExpr]))
      (hsup.2 name (by simp [demandsOfExpr])) hvars hline
  | number text =>
    rw [fragmentOf] at hf
    rw [Expr.eval]
    cases hread : Number.read? text with
    | none => simp [hread] at hf
    | some v =>
      simp only [hread] at hf
      cases hf
      exact ⟨s, rfl, Keeps.refl reg s, rfl⟩
  | quotation text =>
    cases hf
    exact ⟨_, s, rfl, Keeps.refl reg s, by rw [hline]; rfl⟩
  | binary op left right ihl ihr =>
    have hsupl := hsup.mono (List.subset_append_left (demandsOfExpr left) (demandsOfExpr right))
    have hsupr := hsup.mono (List.subset_append_right (demandsOfExpr left) (demandsOfExpr right))
    obtain ⟨l, r, hl, hr, hshape⟩ := fragmentOf_binary hf
    obtain ⟨more, hsteps⟩ : ∃ more, f.steps = l.steps ++ (r.steps ++ more) := by
      rcases hshape with ⟨a, -, rfl⟩ | ⟨rel, -, rfl⟩ <;>
        exact ⟨_, List.append_assoc _ _ _⟩
    have hleft := ihl hl hsupl hvars
    cases hx : left.eval vars line with
    | error stop =>
      rw [hx] at hleft
      obtain ⟨halt, s', hexec, hkeep, hstop⟩ := hleft
      rw [Expr.eval_binary_left hx, hsteps]
      exact ⟨halt, s', execSteps_append_error _ hexec, hkeep, hstop⟩
    | ok x =>
      rw [hx] at hleft
      obtain ⟨s₁, hexec₁, hkeep₁, hxv⟩ := hleft
      have hright := ihr hr hsupr (hvars.keeps hkeep₁)
      obtain ⟨hnext, hbelow⟩ := fragmentOf_next hl
      cases hy : right.eval vars line with
      | error stop =>
        rw [hy] at hright
        obtain ⟨halt, s', hexec, hkeep, hstop⟩ := hright
        rw [Expr.eval_binary_right hx hy, hsteps]
        refine ⟨halt, s', ?_, hkeep₁.trans (hkeep.mono hnext), hstop⟩
        rw [execSteps_append_ok _ hexec₁, execSteps_append_error _ hexec]
      | ok y =>
        rw [hy] at hright
        obtain ⟨s₂, hexec₂, hkeep₂, hyv⟩ := hright
        have hboth : execSteps (ns.surroundings input) line (l.steps ++ r.steps) s = .ok s₂ := by
          rw [execSteps_append_ok _ hexec₁, hexec₂]
        obtain ⟨z, s', hz, hexec, hkeep, hzv⟩ := hshape.exec hboth
          (hkeep₁.trans (hkeep₂.mono hnext)) (Nat.le_trans hnext (fragmentOf_next hr).1)
          ((hkeep₂.number? hbelow).trans hxv) hyv
        rw [Expr.eval_binary hx hy hz]
        exact ⟨s', hexec, hkeep, hzv⟩
  | hole => cases hf

/-! ## Print lists -/

/-- What code comes to where the items of a print list come to `x`: one more line, or the end of the
program for the reason that an item has no value. -/
def Prints (s : State) (result : Result) : Except Stop (List Item) → Prop
  | .ok is => ∃ regs, result =
      .ok { s with regs := regs, items := [], lines := s.lines ++ [s.items ++ is] }
  | .error stop => ∃ halt s', result = .error (halt, s') ∧ s'.lines = s.lines ∧
      stop.halt? = some halt

theorem Instr.exec_printText {text : Nat} {t : Text} {env : Surroundings}
    (h : env.texts[text]? = some t) :
    (Instr.printText text).exec env s = .ok { s with items := s.items ++ [.text t] } := by
  simp only [Instr.exec, h]

theorem Instr.exec_printNumber {value : Operand} {v : Number} {env : Surroundings}
    (h : s.number? value = some v) :
    (Instr.printNumber value).exec env s = .ok { s with items := s.items ++ [.number v] } := by
  simp only [Instr.exec, h]

/-- One more item in front of a print list. -/
theorem Prints.cons {s s' : State} {result : Result} {i : Item} {rest : Except Stop (List Item)}
    (h : Prints s' result rest)
    (hs : s' = { s with regs := s'.regs, items := s.items ++ [i] }) :
    Prints s result (rest.map (i :: ·)) := by
  have hlines : s'.lines = s.lines := by rw [hs]
  cases rest with
  | ok is =>
    obtain ⟨regs, h⟩ := h
    refine ⟨regs, ?_⟩
    rw [h, hs, List.append_assoc]
    rfl
  | error stop =>
    obtain ⟨halt, s'', h, hl, hstop⟩ := h
    exact ⟨halt, s'', h, hl.trans hlines, hstop⟩

theorem mapM_item_cons {i : PrintItem} {x : Item} {items : List PrintItem} {line : Int}
    (h : i.item vars line = .ok x) :
    (i :: items).mapM (PrintItem.item vars line) =
      (items.mapM (PrintItem.item vars line)).map (x :: ·) := by
  rw [List.mapM_cons, h]
  cases items.mapM (PrintItem.item vars line) <;> rfl

variable (input) in
/-- **The code of a print list** finishes a line with its items. -/
theorem printSteps_exec {reg : Nat} {items : List PrintItem} {r : List Step × Nat}
    (hr : printSteps ns reg items = .ok r)
    (htexts : ∀ t, .literal t ∈ items → t ∈ ns.texts)
    (hsup : ∀ e, .value e ∈ items → ns.Supplies (demandsOfExpr e))
    (hvars : Holds ns.slots vars s) (hline : lineWord line = line) :
    Prints s (execSteps (ns.surroundings input) line r.1 s)
      (items.mapM (PrintItem.item vars line)) := by
  induction items generalizing reg r s with
  | nil =>
    cases hr
    rw [List.mapM_nil]
    exact ⟨s.regs, by rw [List.append_nil]; rfl⟩
  | cons item items ih =>
    have htexts' : ∀ t, .literal t ∈ items → t ∈ ns.texts :=
      fun t ht => htexts t (List.mem_cons_of_mem _ ht)
    have hsup' : ∀ e, .value e ∈ items → ns.Supplies (demandsOfExpr e) :=
      fun e he => hsup e (List.mem_cons_of_mem _ he)
    cases item with
    | literal t =>
      rw [printSteps] at hr
      obtain ⟨rest, hrest, hr⟩ := bind_eq_ok.mp hr
      cases hr
      rw [mapM_item_cons rfl, execSteps_plain_ok _
        (Instr.exec_printText (Names.getElem?_text (htexts t List.mem_cons_self)))]
      have hvars' : Holds ns.slots vars { s with items := s.items ++ [.text t] } := hvars
      exact (ih hrest htexts' hsup' hvars').cons rfl
    | value e =>
      rw [printSteps] at hr
      obtain ⟨f, hf, hr⟩ := bind_eq_ok.mp hr
      obtain ⟨rest, hrest, hr⟩ := bind_eq_ok.mp hr
      cases hr
      have hexpr := fragmentOf_exec input hf (hsup e List.mem_cons_self) hvars hline
      cases he : e.eval vars line with
      | error stop =>
        rw [he] at hexpr
        obtain ⟨halt, s', hexec, hkeep, hstop⟩ := hexpr
        have hitem : (PrintItem.value e).item vars line = .error stop := by
          rw [PrintItem.item, he]
          rfl
        rw [List.mapM_cons, hitem]
        exact ⟨halt, s', execSteps_append_error _ hexec, hkeep.lines, hstop⟩
      | ok v =>
        rw [he] at hexpr
        obtain ⟨s', hexec, hkeep, hv⟩ := hexpr
        have hitem : (PrintItem.value e).item vars line = .ok (.number v) := by
          rw [PrintItem.item, he]
          rfl
        rw [mapM_item_cons hitem, execSteps_append_ok _ hexec,
          execSteps_plain_ok _ (Instr.exec_printNumber hv)]
        have hkept : Holds ns.slots vars s' := hvars.keeps hkeep
        have hvars' : Holds ns.slots vars { s' with items := s'.items ++ [.number v] } := hkept
        refine (ih hrest htexts' hsup' hvars').cons ?_
        rw [hkeep.rest]

/-! ## Actions -/

/-- The state after a number has been put into a slot. -/
def State.store (s : State) (slot : Nat) (v : Number) : State :=
  { s with
    values := fun i => if i = slot then v else s.values i
    flags := fun i => if i = slot then true else s.flags i }

theorem Holds.store {slots : List Text} {name : Text} (h : Holds slots vars s)
    (hname : name ∈ slots) (v : Number) :
    Holds slots (vars.insert name v) (s.store (slots.idxOf name) v) := by
  intro other
  by_cases hother : other = name
  · subst hother
    rw [Table.find?_insert_self]
    simp [State.value?, State.store, hname]
  · rw [Table.find?_insert_of_ne vars v hother, ← h other]
    by_cases hmem : other ∈ slots
    · have hne : slots.idxOf other ≠ slots.idxOf name := fun heq =>
        hother ((List.idxOf_inj hmem).mp heq)
      simp [State.value?, State.store, hne]
    · simp [State.value?, hmem]

theorem storeSteps_exec {target : Text} {value : Operand} {v : Number}
    (hslot : target ∈ ns.slots) (hv : s.number? value = some v) :
    execSteps (ns.surroundings input) line (storeSteps ns target value) s =
      .ok (s.store (ns.slot target) v) := by
  have hlt : ns.slot target < (ns.surroundings input).slots.length := Names.slot_lt hslot
  have hstore : (Instr.storeValue value (ns.slot target)).exec (ns.surroundings input) s =
      .ok { s with values := fun i => if i = ns.slot target then v else s.values i } := by
    simp only [Instr.exec, hv, if_pos hlt]
  rw [storeSteps, execSteps_plain_ok _ hstore, execSteps_singleton, Step.exec, Instr.exec,
    if_pos hlt]
  rfl

/-- A state of the code and a machine between two lines: the same variables, the same input to come
and the same lines printed. -/
structure Matches (ns : Names) (input : Nat → Option Number) (m : Machine)
    (printed : List (List Item)) (s : State) : Prop where
  vars : Holds ns.slots m.vars s
  labels : m.labels = ns.labels.mapValues fun (n : Nat) => (n : Int)
  room : m.output.room = none
  input : ∀ k, input (s.taken + k) = m.delivered k
  items : s.items = []
  lines : s.lines = printed

/-- Where code goes, against what a machine did on a line: on to the block of the line that the
machine goes on at, or to the end of the program for the reason that the machine stopped. -/
def Answers (ns : Names) (input : Nat → Option Number) (line : Nat)
    (printed more : List (List Item)) (c : Config) : Machine × Except Stop Flow → Prop
  | (m, .ok flow) => ∃ (n : Nat) (s : State), Machine.follow line flow = n ∧ 1 ≤ n ∧
      c = .entering (ns.block n) s ∧ Matches ns input m (printed ++ more) s
  | (_, .error stop) => ∃ halt s, c = .ended halt s ∧ s.lines = printed ∧ stop.halt? = some halt

variable {m : Machine} {printed : List (List Item)} {reg : Nat} {r : Routine} {prompt : Text}

/-- Changes to fresh registers and the slots of the variables keep the match. -/
theorem Matches.update (h : Matches ns input m printed s) {s' : State} {vars : Table Number}
    (hs : s' = { s with regs := s'.regs, values := s'.values, flags := s'.flags })
    (hvars : Holds ns.slots vars s') : Matches ns input { m with vars := vars } printed s' where
  vars := hvars
  labels := h.labels
  room := h.room
  input := by
    intro k
    rw [hs]
    rw [Machine.delivered_congr (show ({ m with vars := vars } : Machine).input = m.input from rfl)]
    exact h.input k
  items := by rw [hs]; exact h.items
  lines := by rw [hs]; exact h.lines

theorem assign_exec {target : Text} {e : Expr}
    (hr : routineOf ns line reg (.assign target e) = .ok r)
    (hsup : ns.Supplies (demandsOfAction ns.labels (.assign target e)))
    (h : Matches ns input m printed s) (hline : lineWord line = line) :
    Answers ns input line printed []
      ((execSteps (ns.surroundings input) line r.steps s).then (ns.surroundings input) line r.tail)
      (m.perform prompt line (.assign target e)) := by
  rw [routineOf] at hr
  obtain ⟨f, hf, hr⟩ := bind_eq_ok.mp hr
  cases hr
  have hexpr := fragmentOf_exec input hf (hsup.mono (List.subset_append_left _ _)) h.vars hline
  rw [Machine.perform_assign]
  cases he : e.eval m.vars line with
  | error stop =>
    rw [he] at hexpr
    obtain ⟨halt, s', hexec, hkeep, hstop⟩ := hexpr
    refine ⟨halt, s', ?_, hkeep.lines.trans h.lines, hstop⟩
    rw [execSteps_append_error _ hexec]
    rfl
  | ok v =>
    rw [he] at hexpr
    obtain ⟨s', hexec, hkeep, hv⟩ := hexpr
    have htarget : target ∈ ns.slots := hsup.1 target (by simp [demandsOfAction])
    refine ⟨line + 1, s'.store (ns.slot target) v, rfl, Nat.le_add_left _ _, ?_, ?_⟩
    · rw [execSteps_append_ok _ hexec, storeSteps_exec htarget hv]
      rfl
    · rw [List.append_nil]
      refine h.update ?_ ((h.vars.keeps hkeep).store htarget v)
      rw [hkeep.rest]
      rfl

theorem branch_exec {c : Expr} {label : Text} (hr : routineOf ns line reg (.branch c label) = .ok r)
    (hsup : ns.Supplies (demandsOfAction ns.labels (.branch c label)))
    (hpos : ∀ l n, ns.labels.find? l = some n → 1 ≤ n)
    (h : Matches ns input m printed s) (hline : lineWord line = line) :
    Answers ns input line printed []
      ((execSteps (ns.surroundings input) line r.steps s).then (ns.surroundings input) line r.tail)
      (m.perform prompt line (.branch c label)) := by
  rw [routineOf] at hr
  obtain ⟨f, hf, hr⟩ := bind_eq_ok.mp hr
  have hexpr := fragmentOf_exec input hf (hsup.mono (List.subset_append_left _ _)) h.vars hline
  rw [Machine.perform_branch]
  cases hc : c.eval m.vars line with
  | error stop =>
    rw [hc] at hexpr
    obtain ⟨halt, s', hexec, hkeep, hstop⟩ := hexpr
    cases hr
    refine ⟨halt, s', ?_, hkeep.lines.trans h.lines, hstop⟩
    rw [execSteps_append_error _ hexec]
    rfl
  | ok v =>
    rw [hc] at hexpr
    obtain ⟨s', hexec, hkeep, hv⟩ := hexpr
    -- at the end of the code the condition is in a flag of its own
    obtain ⟨s₂, hend, hkeep₂, hflag⟩ : ∃ s₂, execSteps (ns.surroundings input) line
        (f.steps ++ [.plain (.compare f.next .ne f.value (.const .zero))]) s = .ok s₂ ∧
          Keeps reg s s₂ ∧ s₂.flag? f.next = some v.isTrue := by
      refine ⟨s'.put f.next (.flag v.isTrue), ?_,
        hkeep.trans (Keeps.put (fragmentOf_next hf).1 s' _), State.flag?_put _ _ _⟩
      rw [execSteps_append_ok _ hexec, execSteps_singleton, Step.exec, Instr.exec_compare hv rfl]
      rfl
    have hmatch : Matches ns input m (printed ++ []) s₂ := by
      rw [List.append_nil]
      exact h.update (by rw [hkeep₂.rest]) (h.vars.keeps hkeep₂)
    have hlabel := Table.find?_mapValues (fun (n : Nat) => (n : Int)) ns.labels label
    rw [← h.labels] at hlabel
    cases hfind : ns.labels.find? label with
    | some target =>
      rw [hfind] at hr hlabel
      cases hr
      rw [hend]
      simp only [Result.then, Tail.exec, Terminator.exec, hflag]
      cases v.isTrue with
      | true =>
        rw [if_pos rfl, hlabel]
        exact ⟨target, _, rfl, hpos label target hfind, rfl, hmatch⟩
      | false => exact ⟨line + 1, _, rfl, Nat.le_add_left _ _, rfl, hmatch⟩
    | none =>
      rw [hfind] at hr hlabel
      cases hr
      rw [hend]
      simp only [Result.then, Tail.exec, hflag]
      cases v.isTrue with
      | true =>
        rw [if_pos rfl, hlabel]
        have htext : label ∈ ns.texts := hsup.2 label (by simp [demandsOfAction, Table.has, hfind])
        refine ⟨.illegalGoto label line, _, Block.exec_error ?_, hkeep₂.lines.trans h.lines, rfl⟩
        simp only [execAll_singleton, Instr.exec, Names.getElem?_text htext, hline]
      | false => exact ⟨line + 1, _, rfl, Nat.le_add_left _ _, rfl, hmatch⟩

theorem print_exec {items : List PrintItem} (hr : routineOf ns line reg (.print items) = .ok r)
    (hsup : ns.Supplies (demandsOfAction ns.labels (.print items)))
    (h : Matches ns input m printed s) (hline : lineWord line = line) :
    Answers ns input line printed (Stmt.printedLines m.vars ⟨line, .print items⟩)
      ((execSteps (ns.surroundings input) line r.steps s).then (ns.surroundings input) line r.tail)
      (m.perform prompt line (.print items)) := by
  rw [routineOf] at hr
  obtain ⟨⟨steps, next⟩, hsteps, hr⟩ := bind_eq_ok.mp hr
  cases hr
  have hprint := printSteps_exec input hsteps
    (fun t ht => hsup.2 t (List.mem_flatMap.mpr ⟨_, ht, List.mem_cons_self⟩))
    (fun e he => hsup.mono fun g hg => List.mem_flatMap.mpr ⟨_, he, hg⟩) h.vars hline
  simp only [Machine.perform_print, Machine.printed_eq_items, Stmt.printedLines]
  cases hitems : items.mapM (PrintItem.item m.vars line) with
  | error stop =>
    rw [hitems] at hprint
    obtain ⟨halt, s', hexec, hlines, hstop⟩ := hprint
    refine ⟨halt, s', ?_, hlines.trans h.lines, hstop⟩
    rw [hexec]
    rfl
  | ok is =>
    rw [hitems] at hprint
    obtain ⟨regs, hexec⟩ := hprint
    have hfits : m.write (Item.line is) =
        ({ m with output := m.output.write (Item.line is) }, .ok ()) := by
      simp [Machine.write, Output.fits, h.room]
    simp only [Except.map, hfits]
    refine ⟨line + 1, _, rfl, Nat.le_add_left _ _, by rw [hexec]; rfl, ?_⟩
    exact
      { vars := h.vars
        labels := h.labels
        room := (Output.write_unbounded h.room _).1
        input := fun k => (h.input k).trans (Machine.delivered_congr (by rfl) k)
        items := rfl
        lines := by rw [h.items, h.lines]; rfl }

theorem input_exec {target : Text} (hr : routineOf ns line reg (.input target) = .ok r)
    (hsup : ns.Supplies (demandsOfAction ns.labels (.input target)))
    (h : Matches ns input m printed s) (hline : lineWord line = line) :
    Answers ns input line printed []
      ((execSteps (ns.surroundings input) line r.steps s).then (ns.surroundings input) line r.tail)
      (m.perform prompt line (.input target)) := by
  cases hr
  have htarget : target ∈ ns.slots := hsup.1 target (by simp [demandsOfAction])
  obtain ⟨o, ho, -, hask⟩ := Machine.ask_unbounded prompt h.room
  obtain ⟨rest, hmachine, hlater, hvalue⟩ :=
    Machine.readNumber_delivered { m with output := o } line
  have hnow : ∀ k, ({ m with output := o } : Machine).delivered k = input (s.taken + k) :=
    fun k => (Machine.delivered_congr (by rfl) k).trans (h.input k).symm
  simp only [Machine.perform_input, hask]
  rcases hread : ({ m with output := o } : Machine).readNumber line with ⟨m', result⟩
  rw [hread] at hmachine hlater hvalue
  rw [hnow 0, Nat.add_zero] at hvalue
  dsimp only at hmachine hlater hvalue
  subst hmachine
  cases hdel : input s.taken with
  | none =>
    rw [hdel] at hvalue
    subst hvalue
    have hfail : (Instr.input reg line).exec (ns.surroundings input) s =
        .error (.badInput line, s) := by
      simp only [Instr.exec, Names.surroundings, hdel, hline]
    refine ⟨_, s, ?_, h.lines, rfl⟩
    rw [execSteps_plain_error _ hfail]
    rfl
  | some v =>
    rw [hdel] at hvalue
    subst hvalue
    have htake : (Instr.input reg line).exec (ns.surroundings input) s =
        .ok { s.put reg (.number v) with taken := s.taken + 1 } := by
      simp only [Instr.exec, Names.surroundings, hdel]
    have hput : ({ s.put reg (.number v) with taken := s.taken + 1 } : State).number? (.reg reg) =
        some v := State.number?_put s reg v
    refine ⟨line + 1, _, rfl, Nat.le_add_left _ _,
      by rw [execSteps_plain_ok _ htake, storeSteps_exec htarget hput]; rfl, ?_⟩
    exact
      { vars := Holds.store h.vars htarget v
        labels := h.labels
        room := ho
        input := by
          intro k
          show input (s.taken + 1 + k) = _
          rw [Nat.add_assoc, Nat.add_comm 1 k, ← hnow (k + 1), ← hlater k]
          exact Machine.delivered_congr (by rfl) k
        items := h.items
        lines := by rw [List.append_nil]; exact h.lines }

/-- **The code of an action** does what a machine does on its line. -/
theorem routineOf_exec {a : Action} (hr : routineOf ns line reg a = .ok r)
    (hsup : ns.Supplies (demandsOfAction ns.labels a))
    (hpos : ∀ l n, ns.labels.find? l = some n → 1 ≤ n)
    (h : Matches ns input m printed s) (hline : lineWord line = line) :
    Answers ns input line printed (Stmt.printedLines m.vars ⟨line, a⟩)
      ((execSteps (ns.surroundings input) line r.steps s).then (ns.surroundings input) line r.tail)
      (m.perform prompt line a) := by
  cases a with
  | assign target e => exact assign_exec hr hsup h hline
  | branch c label => exact branch_exec hr hsup hpos h hline
  | print items => exact print_exec hr hsup h hline
  | input target => exact input_exec hr hsup h hline

end Exec

end Code

end TinyLang
