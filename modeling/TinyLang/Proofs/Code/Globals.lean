import TinyLang.Finding
import TinyLang.Proofs.Code.Cut

/-!
# Globals that the code of a statement refers to

The code of a statement refers to the slots of the variables and to the texts that the statement
uses, in the order of the statement.

* `mem_globalsOf`: a program has the globals that its statements ask for, and no others.
  `Program.Uses` and `Program.Mentions` are the variables and the texts among them.
* `accessesOfAction`, `reportsOfAction`: the globals that a statement calls for, given the numbers
  of its variables and texts.
* `routineOf_globals`: the headline. The code of a statement refers to these and to nothing else.
-/

namespace TinyLang

namespace Code

/-! ## What a program asks for -/

theorem nodup_firstOccurrences (gs : List Global) : (firstOccurrences gs).Nodup := by
  have hfold : ∀ seen : List Global, seen.Nodup →
      (gs.foldl (fun seen g => if g ∈ seen then seen else g :: seen) seen).Nodup := by
    induction gs with
    | nil => exact fun seen h => h
    | cons g gs ih =>
      intro seen hseen
      rw [List.foldl_cons]
      split_ifs with hg
      · exact ih seen hseen
      · exact ih _ (List.nodup_cons.2 ⟨hg, hseen⟩)
  unfold firstOccurrences
  rw [List.nodup_reverse]
  exact hfold [] List.nodup_nil

theorem nodup_slotNamesOf {gs : List Global} (h : gs.Nodup) : (slotNamesOf gs).Nodup := by
  refine h.filterMap fun g g' name hg hg' => ?_
  cases g <;> cases g' <;> cases hg <;> cases hg'
  rfl

theorem nodup_textsOf {gs : List Global} (h : gs.Nodup) : (textsOf gs).Nodup := by
  refine h.filterMap fun g g' t hg hg' => ?_
  cases g <;> cases g' <;> cases hg <;> cases hg'
  rfl

theorem mem_slotNamesOf {gs : List Global} {name : Text} :
    name ∈ slotNamesOf gs ↔ .slot name ∈ gs := by
  unfold slotNamesOf
  rw [List.mem_filterMap]
  constructor
  · rintro ⟨g, hg, hname⟩
    cases g <;> cases hname
    exact hg
  · exact fun h => ⟨_, h, rfl⟩

theorem mem_textsOf {gs : List Global} {t : Text} : t ∈ textsOf gs ↔ .text t ∈ gs := by
  unfold textsOf
  rw [List.mem_filterMap]
  constructor
  · rintro ⟨g, hg, ht⟩
    cases g <;> cases ht
    exact hg
  · exact fun h => ⟨_, h, rfl⟩

theorem mem_demandsOfExpr {e : Expr} {name : Text} :
    (.slot name ∈ demandsOfExpr e ↔ name ∈ e.reads) ∧
      (.text name ∈ demandsOfExpr e ↔ name ∈ e.reads) := by
  induction e with
  | var x => simp [demandsOfExpr, Expr.reads]
  | binary op left right ihl ihr => simp [demandsOfExpr, Expr.reads, ihl, ihr]
  | number t => simp [demandsOfExpr, Expr.reads]
  | quotation t => simp [demandsOfExpr, Expr.reads]
  | hole => simp [demandsOfExpr, Expr.reads]

end Code

/-- A statement of a program reads or assigns a variable. -/
def Program.Uses (p : Program) (name : Text) : Prop :=
  ∃ (n : Nat) (s : Stmt), p.stmt? n = some s ∧ (name ∈ s.action.reads ∨ s.action.target? = some name)

/-- A text that a program prints or may name in a message: a print item, a variable that it reads,
or a label that it jumps to and no line carries. -/
def Program.Mentions (p : Program) (t : Text) : Prop :=
  ∃ (n : Nat) (s : Stmt), p.stmt? n = some s ∧ (t ∈ s.action.reads ∨
    (∃ items, s.action = .print items ∧ .literal t ∈ items) ∨
    s.action.goto? = some t ∧ p.labels.find? t = none)

namespace Code

theorem mem_demandsOfAction_slot {labels : Table Nat} {a : Action} {name : Text} :
    .slot name ∈ demandsOfAction labels a ↔ name ∈ a.reads ∨ a.target? = some name := by
  cases a with
  | assign target e =>
    simp [demandsOfAction, Action.reads, Action.target?, mem_demandsOfExpr, eq_comm]
  | branch c label =>
    cases h : labels.has label <;>
      simp [demandsOfAction, Action.reads, Action.target?, mem_demandsOfExpr, h]
  | print items =>
    simp only [demandsOfAction, Action.reads, Action.target?, List.mem_flatMap, reduceCtorEq, or_false]
    refine exists_congr fun item => and_congr_right fun _ => ?_
    cases item <;> simp [mem_demandsOfExpr]
  | input target => simp [demandsOfAction, Action.reads, Action.target?, eq_comm]

theorem mem_demandsOfAction_text {labels : Table Nat} {a : Action} {t : Text} :
    .text t ∈ demandsOfAction labels a ↔ t ∈ a.reads ∨
      (∃ items, a = .print items ∧ .literal t ∈ items) ∨
      a.goto? = some t ∧ labels.find? t = none := by
  cases a with
  | assign target e => simp [demandsOfAction, Action.reads, Action.goto?, mem_demandsOfExpr]
  | branch c label =>
    have hlabel : .text t ∈ (if labels.has label then [] else [Global.text label]) ↔
        some label = some t ∧ labels.find? t = none := by
      constructor
      · intro h
        split_ifs at h with hhas
        · cases h
        · cases List.mem_singleton.1 h
          exact ⟨rfl, by simpa [Table.has] using hhas⟩
      · rintro ⟨⟨⟩, hnone⟩
        simp [Table.has, hnone]
    simp [demandsOfAction, Action.reads, Action.goto?, mem_demandsOfExpr, hlabel]
  | print items =>
    simp only [demandsOfAction, Action.reads, Action.goto?, List.mem_flatMap, reduceCtorEq, false_and,
      or_false, Action.print.injEq, exists_eq_left']
    constructor
    · rintro ⟨item, hitem, ht⟩
      cases item with
      | literal text =>
        cases List.mem_singleton.1 ht
        exact .inr hitem
      | value e => exact .inl ⟨_, hitem, mem_demandsOfExpr.2.1 ht⟩
    · rintro (⟨item, hitem, ht⟩ | hitem)
      · cases item with
        | literal text => cases ht
        | value e => exact ⟨_, hitem, mem_demandsOfExpr.2.2 ht⟩
      · exact ⟨_, hitem, List.mem_singleton.2 rfl⟩
  | input target => simp [demandsOfAction, Action.reads, Action.goto?]

theorem mem_globalsOf {p : Program} {g : Global} :
    g ∈ globalsOf p ↔ ∃ n s, p.stmt? (n : Nat) = some s ∧ g ∈ demandsOfAction p.labels s.action := by
  unfold globalsOf
  rw [mem_firstOccurrences, List.mem_flatMap]
  constructor
  · rintro ⟨⟨n, s⟩, hmem, hg⟩
    exact ⟨n, s, Program.mem_statements.1 hmem, hg⟩
  · rintro ⟨n, s, hs, hg⟩
    exact ⟨(n, s), Program.mem_statements.2 hs, hg⟩

/-! ## What a statement calls for -/

/-- The globals that an expression calls for, in order, where variable `x` has slot `slot x`. A
variable is read by looking at its flag and loading its value. -/
def accessesOfExpr (slot : Text → Nat) : Expr → List Text
  | .var x => [flagName (slot x), valueName (slot x)]
  | .quotation _ => ["@tl_syntax_error"]
  | .binary _ left right => accessesOfExpr slot left ++ accessesOfExpr slot right
  | _ => []

/-- The globals that printing an item calls for. -/
def accessesOfItem (slot text : Text → Nat) : PrintItem → List Text
  | .literal t => ["@tl_print_str", textName (text t)]
  | .value e => accessesOfExpr slot e ++ [("@tl_print_num" : Text)]

/-- The globals that an action calls for, in order, reports apart. A variable is assigned by
storing its value and raising its flag. -/
def accessesOfAction (slot text : Text → Nat) : Action → List Text
  | .assign target e => accessesOfExpr slot e ++ [valueName (slot target), flagName (slot target)]
  | .branch c _ => accessesOfExpr slot c
  | .print items => items.flatMap (accessesOfItem slot text) ++ [("@tl_print_end" : Text)]
  | .input target => ["@tl_input", valueName (slot target), flagName (slot target)]

/-- The globals that reporting a variable without a value calls for. -/
def undefinedReport (text : Text → Nat) (x : Text) : List Text := ["@tl_undefined", textName (text x)]

/-- The globals that the reports of an action call for, in order: one for each variable that is
read, and one for a label that no line carries. -/
def reportsOfAction (text : Text → Nat) (labels : Table Nat) (a : Action) : List Text :=
  a.reads.flatMap (undefinedReport text) ++
    match a.goto? with
    | some label => if labels.has label then [] else ["@tl_illegal_goto", textName (text label)]
    | none => []

theorem mem_accessesOfExpr {slot : Text → Nat} {e : Expr} {g : Text}
    (h : g ∈ accessesOfExpr slot e) :
    g ∈ functionNames ∨ ∃ x ∈ e.reads, g = valueName (slot x) ∨ g = flagName (slot x) := by
  induction e with
  | var x =>
    rcases List.mem_pair.1 h with rfl | rfl
    · exact .inr ⟨x, List.mem_cons_self, .inr rfl⟩
    · exact .inr ⟨x, List.mem_cons_self, .inl rfl⟩
  | quotation text =>
    cases List.mem_singleton.1 h
    exact .inl (by decide)
  | binary op left right ihl ihr =>
    rcases List.mem_append.1 h with h | h
    · refine (ihl h).imp_right ?_
      rintro ⟨x, hx, hg⟩
      exact ⟨x, List.mem_append_left _ hx, hg⟩
    · refine (ihr h).imp_right ?_
      rintro ⟨x, hx, hg⟩
      exact ⟨x, List.mem_append_right _ hx, hg⟩
  | number text => cases h
  | hole => cases h

section Cases

variable {slot text : Text → Nat} {p : Program} {n : Nat} {s : Stmt} {g : Text}

/-- What a global is to a program: a function of the support code, the value or the flag of a
variable, or a text. -/
def Belongs (p : Program) (slot text : Text → Nat) (g : Text) : Prop :=
  g ∈ functionNames ∨ (∃ x, p.Uses x ∧ (g = valueName (slot x) ∨ g = flagName (slot x))) ∨
    ∃ t, p.Mentions t ∧ g = textName (text t)

theorem belongs_of_accesses (hs : p.stmt? n = some s) (h : g ∈ accessesOfAction slot text s.action) :
    Belongs p slot text g := by
  have hexpr : ∀ e : Expr, e.reads ⊆ s.action.reads → g ∈ accessesOfExpr slot e →
      Belongs p slot text g := by
    intro e hsub h
    refine (mem_accessesOfExpr h).imp_right fun hx => .inl ?_
    obtain ⟨x, hx, hg⟩ := hx
    exact ⟨x, ⟨n, s, hs, .inl (hsub hx)⟩, hg⟩
  have htarget : ∀ x, s.action.target? = some x → g = valueName (slot x) ∨ g = flagName (slot x) →
      Belongs p slot text g := fun x hx hg => .inr (.inl ⟨x, ⟨n, s, hs, .inr hx⟩, hg⟩)
  cases ha : s.action with
  | assign target e =>
    rw [ha] at h hexpr htarget
    rcases List.mem_append.1 h with h | h
    · exact hexpr e (List.Subset.refl _) h
    · exact htarget target rfl (List.mem_pair.1 h)
  | branch c label =>
    rw [ha] at h hexpr
    exact hexpr c (List.Subset.refl _) h
  | print items =>
    rw [ha] at h hexpr
    rcases List.mem_append.1 h with h | h
    · obtain ⟨item, hitem, h⟩ := List.mem_flatMap.1 h
      cases item with
      | literal t =>
        rcases List.mem_pair.1 h with rfl | rfl
        · exact .inl (by decide)
        · exact .inr (.inr ⟨t, ⟨n, s, hs, .inr (.inl ⟨items, ha, hitem⟩)⟩, rfl⟩)
      | value e =>
        rcases List.mem_append.1 h with h | h
        · exact hexpr e (fun x hx => List.mem_flatMap.2 ⟨_, hitem, hx⟩) h
        · cases List.mem_singleton.1 h
          exact .inl (by decide)
    · cases List.mem_singleton.1 h
      exact .inl (by decide)
  | input target =>
    rw [ha] at h htarget
    rcases List.mem_cons.1 h with rfl | h
    · exact .inl (by decide)
    · exact htarget target rfl (List.mem_pair.1 h)

theorem belongs_of_reports (hs : p.stmt? n = some s)
    (h : g ∈ reportsOfAction text p.labels s.action) : Belongs p slot text g := by
  rcases List.mem_append.1 h with h | h
  · obtain ⟨x, hx, h⟩ := List.mem_flatMap.1 h
    rcases List.mem_pair.1 h with rfl | rfl
    · exact .inl (by decide)
    · exact .inr (.inr ⟨x, ⟨n, s, hs, .inl hx⟩, rfl⟩)
  · cases hgoto : s.action.goto? with
    | none =>
      rw [hgoto] at h
      cases h
    | some label =>
      rw [hgoto] at h
      dsimp only at h
      split_ifs at h with hhas
      · cases h
      · have hnone : p.labels.find? label = none := by simpa [Table.has] using hhas
        rcases List.mem_pair.1 h with rfl | rfl
        · exact .inl (by decide)
        · exact .inr (.inr ⟨label, ⟨n, s, hs, .inr (.inr ⟨hgoto, hnone⟩)⟩, rfl⟩)

end Cases

/-! ## What the code refers to -/

/-- The globals that the lines of some blocks name, in order, reports apart. -/
def accessesIn (cx : PrintContext) (bs : List Block) : List Text :=
  ((bs.flatMap (Block.lines cx)).filter fun t => !isReportLine t).flatMap globalsIn

/-- The globals that the reports among the lines of some blocks name, in order. -/
def reportsIn (cx : PrintContext) (bs : List Block) : List Text :=
  ((bs.flatMap (Block.lines cx)).filter isReportLine).flatMap globalsIn

/-- The globals that an instruction refers to, if it is no report. -/
def Instr.accesses (i : Instr) : List Text := if i.isReport then [] else i.globals

/-- The globals that an instruction refers to, if it is a report. -/
def Instr.reports (i : Instr) : List Text := if i.isReport then i.globals else []

/-- The lines of a block that pass a test which its instructions pass alike. -/
theorem lines_filter (cx : PrintContext) {test : Text → Bool} {pass : Instr → Bool}
    (htest : ∀ i, test (instrText cx i) = pass i) (b : Block) :
    ((b.lines cx).filter test).flatMap globalsIn =
      b.instrs.flatMap fun i => if pass i then i.globals else [] := by
  have hterm : ([terminatorText cx b.terminator].filter test).flatMap globalsIn = [] := by
    rw [List.filter_singleton]
    cases test (terminatorText cx b.terminator) <;> simp [globalsIn_terminatorText]
  rw [Block.lines, List.filter_append, List.flatMap_append, hterm, List.append_nil]
  induction b.instrs with
  | nil => rfl
  | cons i is ih =>
    rw [List.map_cons, List.filter_cons, List.flatMap_cons, htest]
    cases pass i with
    | true => rw [if_pos rfl, if_pos rfl, List.flatMap_cons, ih, globalsIn_instrText]
    | false => simpa using ih

theorem accessesIn_eq (cx : PrintContext) (bs : List Block) :
    accessesIn cx bs = gathered Instr.accesses bs := by
  have hblock : ∀ b : Block, ((b.lines cx).filter fun t => !isReportLine t).flatMap globalsIn =
      b.instrs.flatMap Instr.accesses := by
    intro b
    rw [lines_filter cx (fun i => congrArg not (isReportLine_instrText cx i)) b]
    refine congrArg (List.flatMap · b.instrs) (funext fun i => ?_)
    cases hi : i.isReport <;> simp [Instr.accesses, hi]
  rw [accessesIn, gathered, List.filter_flatMap, List.flatMap_assoc]
  exact congrArg (List.flatMap · bs) (funext hblock)

theorem reportsIn_eq (cx : PrintContext) (bs : List Block) :
    reportsIn cx bs = gathered Instr.reports bs := by
  rw [reportsIn, gathered, List.filter_flatMap, List.flatMap_assoc]
  exact congrArg (List.flatMap · bs) (funext fun b => lines_filter cx (isReportLine_instrText cx) b)

section Routine

variable {ns : Names} (line : Nat) {reg : Nat}

theorem fragmentOf_globals {e : Expr} {f : Fragment} (h : fragmentOf ns reg e = .ok f) :
    (f.steps.flatMap (Step.instrs line)).flatMap Instr.accesses = accessesOfExpr ns.slot e ∧
      (f.steps.flatMap (Step.instrs line)).flatMap Instr.reports =
        e.reads.flatMap (undefinedReport ns.text) := by
  induction e generalizing reg f with
  | var name =>
    cases h
    exact ⟨rfl, rfl⟩
  | number text =>
    rw [fragmentOf] at h
    cases hread : Number.read? text with
    | none => simp [hread] at h
    | some v =>
      simp only [hread] at h
      cases h
      exact ⟨rfl, rfl⟩
  | quotation text =>
    cases h
    exact ⟨rfl, rfl⟩
  | binary op left right ihl ihr =>
    obtain ⟨l, r, hl, hr, hjoin⟩ := fragmentOf_binary h
    obtain ⟨haccl, hrepl⟩ := ihl hl
    obtain ⟨haccr, hrepr⟩ := ihr hr
    rcases hjoin with ⟨a, -, rfl⟩ | ⟨rel, -, rfl⟩
    · simp only [List.flatMap_append, haccl, haccr, hrepl, hrepr, accessesOfExpr, Expr.reads]
      exact ⟨List.append_nil _, List.append_nil _⟩
    · simp only [List.flatMap_append, haccl, haccr, hrepl, hrepr, accessesOfExpr, Expr.reads]
      exact ⟨List.append_nil _, List.append_nil _⟩
  | hole => cases h

theorem printSteps_globals {items : List PrintItem} {steps : List Step} {next : Nat}
    (h : printSteps ns reg items = .ok (steps, next)) :
    (steps.flatMap (Step.instrs line)).flatMap Instr.accesses =
        accessesOfAction ns.slot ns.text (.print items) ∧
      (steps.flatMap (Step.instrs line)).flatMap Instr.reports =
        (Action.print items).reads.flatMap (undefinedReport ns.text) := by
  induction items generalizing reg steps with
  | nil =>
    cases h
    exact ⟨rfl, rfl⟩
  | cons item items ih =>
    cases item with
    | literal t =>
      obtain ⟨⟨rest, next'⟩, hrest, h⟩ := bind_eq_ok.mp h
      cases h
      obtain ⟨hacc, hrep⟩ := ih hrest
      refine ⟨?_, ?_⟩
      · rw [List.flatMap_cons, List.flatMap_append, hacc]
        rfl
      · rw [List.flatMap_cons, List.flatMap_append, hrep]
        rfl
    | value e =>
      obtain ⟨f, hf, h⟩ := bind_eq_ok.mp h
      obtain ⟨⟨rest, next'⟩, hrest, h⟩ := bind_eq_ok.mp h
      cases h
      obtain ⟨hacc, hrep⟩ := ih hrest
      obtain ⟨hexpr, hvars⟩ := fragmentOf_globals line hf
      refine ⟨?_, ?_⟩
      · rw [List.flatMap_append, List.flatMap_append, hexpr, List.flatMap_cons, List.flatMap_append,
          hacc, accessesOfAction, accessesOfAction, List.flatMap_cons, accessesOfItem,
          List.append_assoc, List.append_assoc]
        rfl
      · rw [List.flatMap_append, List.flatMap_append, hvars, List.flatMap_cons, List.flatMap_append,
          hrep]
        exact List.flatMap_append.symm

/-- **The code of a statement refers to the globals that the statement calls for.** -/
theorem routineOf_globals {a : Action} {r : Routine} (h : routineOf ns line reg a = .ok r) :
    (r.steps.flatMap (Step.instrs line)).flatMap Instr.accesses =
        accessesOfAction ns.slot ns.text a ∧
      (r.steps.flatMap (Step.instrs line) ++ r.tail.instrs line).flatMap Instr.reports =
        reportsOfAction ns.text ns.labels a := by
  cases a with
  | assign target e =>
    obtain ⟨f, hf, h⟩ := bind_eq_ok.mp h
    cases h
    obtain ⟨hacc, hrep⟩ := fragmentOf_globals line hf
    refine ⟨?_, ?_⟩
    · rw [List.flatMap_append, List.flatMap_append, hacc]
      rfl
    · rw [List.flatMap_append, List.flatMap_append, List.flatMap_append, hrep]
      exact List.append_assoc _ _ _
  | branch c label =>
    obtain ⟨f, hf, h⟩ := bind_eq_ok.mp h
    cases h
    obtain ⟨hacc, hrep⟩ := fragmentOf_globals line hf
    refine ⟨?_, ?_⟩
    · rw [List.flatMap_append, List.flatMap_append, hacc]
      exact List.append_nil _
    · rw [List.flatMap_append, List.flatMap_append, List.flatMap_append, hrep, List.append_assoc]
      refine congrArg (List.append (c.reads.flatMap (undefinedReport ns.text))) ?_
      dsimp only [Action.goto?]
      cases hfind : ns.labels.find? label with
      | some target =>
        rw [if_pos (by simp [Table.has, hfind])]
        rfl
      | none =>
        rw [if_neg (by simp [Table.has, hfind])]
        rfl
  | print items =>
    obtain ⟨⟨steps, next⟩, hsteps, h⟩ := bind_eq_ok.mp h
    cases h
    obtain ⟨hacc, hrep⟩ := printSteps_globals line hsteps
    refine ⟨hacc, ?_⟩
    rw [List.flatMap_append, hrep]
    rfl
  | input target =>
    cases h
    exact ⟨rfl, rfl⟩

end Routine

end Code

end TinyLang
