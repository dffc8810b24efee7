import Mathlib.Data.List.Sort
import TinyLang.Finding
import TinyLang.Proofs.Number.Printer
import TinyLang.Proofs.Program.Labels
import TinyLang.Proofs.Text.Quoted

/-!
# What is found

The findings of a program are its mistakes, each once, in the order of their lines and messages.
They are collected from tables that may be gone through in any order, and then put in order by a
method that may leave findings of one rank in any order. Neither makes a difference, since findings
that differ differ in their line or in their message.

* `Issue.message_injective`: the message tells the issue, whatever bytes its names have.
* `Finding.eq_of_perm`: there is one way to put findings in order.
* `Program.Mistake`: what is a mistake of a program, said without the tables.
* `Program.mem_findings`: the findings are the mistakes.
* `Program.nodup_collected`: no finding is collected twice.
* `Program.Enumeration`: an order to go through the tables in.
* `findings_list_each_mistake_once`: the headline.
-/

namespace TinyLang

/-! ## Messages -/

/-- The name that an issue is about. -/
def Issue.subject : Issue → Text
  | missingLabel label => label
  | replacedLabel label _ => label
  | unassigned name => name

/-- **The message tells the issue.** -/
theorem Issue.message_injective : Function.Injective Issue.message := by
  intro i j h
  cases i with
  | missingLabel label =>
    cases j with
    | missingLabel label' =>
      simp only [message, List.append_assoc, List.append_cancel_left_eq] at h
      rw [(Text.quoted_append_inj h).1]
    | replacedLabel => exact absurd (List.cons.inj h).1 (by decide)
    | unassigned => exact absurd (List.cons.inj h).1 (by decide)
  | replacedLabel label last =>
    cases j with
    | missingLabel => exact absurd (List.cons.inj h).1 (by decide)
    | replacedLabel label' last' =>
      simp only [message, List.append_assoc, List.append_cancel_left_eq] at h
      obtain ⟨rfl, hlast⟩ := Text.quoted_append_inj h
      rw [List.append_cancel_left_eq, Text.ofNat_injective.eq_iff] at hlast
      rw [hlast]
    | unassigned => exact absurd (List.cons.inj h).1 (by decide)
  | unassigned name =>
    cases j with
    | missingLabel => exact absurd (List.cons.inj h).1 (by decide)
    | replacedLabel => exact absurd (List.cons.inj h).1 (by decide)
    | unassigned name' =>
      simp only [message, List.append_assoc, List.append_cancel_left_eq] at h
      rw [(Text.quoted_append_inj h).1]

namespace Finding

/-- **Findings that differ differ in their line or in their message.** -/
theorem shown_injective : Function.Injective fun f : Finding => (f.line, f.issue.message) := by
  intro f g h
  obtain ⟨hline, hmessage⟩ := Prod.mk.inj h
  cases f
  cases g
  exact congr (congrArg Finding.mk hline) (Issue.message_injective hmessage)

/-! ## Order -/

variable {f g h : Finding} {fs gs : List Finding}

theorem precedes_iff : f.precedes g = true ↔
    f.line < g.line ∨ f.line = g.line ∧ f.issue.message.before g.issue.message = true := by
  simp [precedes]

theorem precedes_irrefl (f : Finding) : ¬ f.precedes f = true := by
  rw [precedes_iff, Text.before_irrefl]
  simp

theorem precedes_trans (hfg : f.precedes g = true) (hgh : g.precedes h = true) :
    f.precedes h = true := by
  rw [precedes_iff] at *
  rcases hfg with hfg | ⟨hfg, hbefore⟩ <;> rcases hgh with hgh | ⟨hgh, hbefore'⟩
  · exact .inl (by omega)
  · exact .inl (by omega)
  · exact .inl (by omega)
  · exact .inr ⟨by omega, Text.before_trans hbefore hbefore'⟩

/-- Of two findings that differ one precedes the other. -/
theorem precedes_of_not (hne : f ≠ g) (hfg : ¬ f.precedes g = true) : g.precedes f = true := by
  rw [precedes_iff] at *
  rcases Nat.lt_trichotomy f.line g.line with hlt | heq | hgt
  · exact absurd (.inl hlt) hfg
  · refine .inr ⟨heq.symm, Text.before_of_not ?_ fun hbefore => hfg (.inr ⟨heq, hbefore⟩)⟩
    exact fun hmessage => hne (shown_injective (Prod.ext heq hmessage))
  · exact .inl hgt

/-- Whether a finding may be listed in front of another. -/
def NotAfter (f g : Finding) : Prop := g.precedes f = false

instance : DecidableRel NotAfter := fun f g => inferInstanceAs (Decidable (g.precedes f = false))

theorem notAfter_iff : NotAfter f g ↔ f = g ∨ f.precedes g = true := by
  unfold NotAfter
  rw [← Bool.not_eq_true]
  constructor
  · intro hnot
    by_cases heq : f = g
    · exact .inl heq
    · exact .inr (precedes_of_not (Ne.symm heq) hnot)
  · rintro (rfl | hfg) hgf
    · exact precedes_irrefl f hgf
    · exact precedes_irrefl f (precedes_trans hfg hgf)

instance : Std.Total NotAfter where
  total f g := by
    rw [notAfter_iff, notAfter_iff]
    by_cases heq : f = g
    · exact .inl (.inl heq)
    by_cases hfg : f.precedes g = true
    · exact .inl (.inr hfg)
    · exact .inr (.inr (precedes_of_not heq hfg))

instance : IsTrans Finding NotAfter where
  trans f g h hfg hgh := by
    rw [notAfter_iff] at *
    rcases hfg with rfl | hfg
    · exact hgh
    · rcases hgh with rfl | hgh
      · exact .inr hfg
      · exact .inr (precedes_trans hfg hgh)

instance : Std.Antisymm NotAfter where
  antisymm f g hfg hgf := by
    rcases notAfter_iff.1 hfg with heq | hprecedes
    · exact heq
    · exact absurd hprecedes (Bool.eq_false_iff.1 hgf)

theorem sorted_eq_insertionSort (fs : List Finding) : sorted fs = fs.insertionSort NotAfter := by
  have hplace : ∀ f gs, place f gs = gs.orderedInsert NotAfter f := by
    intro f gs
    induction gs with
    | nil => rfl
    | cons g gs ih =>
      rw [place, List.orderedInsert_cons, ih]
      by_cases hprecedes : g.precedes f = true
      · rw [if_pos hprecedes, if_neg (show ¬ NotAfter f g by simp [NotAfter, hprecedes])]
      · rw [if_neg hprecedes, if_pos (show NotAfter f g from Bool.eq_false_iff.2 hprecedes)]
  induction fs with
  | nil => rfl
  | cons f fs ih => exact (congrArg (place f) ih).trans (hplace f _)

theorem perm_sorted (fs : List Finding) : (sorted fs).Perm fs := by
  rw [sorted_eq_insertionSort]
  exact List.perm_insertionSort NotAfter fs

theorem mem_sorted : f ∈ sorted fs ↔ f ∈ fs := (perm_sorted fs).mem_iff

theorem pairwise_sorted (fs : List Finding) : (sorted fs).Pairwise NotAfter := by
  rw [sorted_eq_insertionSort]
  exact List.pairwise_insertionSort NotAfter fs

/-- **There is one way to put findings in order.** -/
theorem eq_of_perm (hperm : fs.Perm gs) (hfs : fs.Pairwise NotAfter) (hgs : gs.Pairwise NotAfter) :
    fs = gs := hperm.eq_of_pairwise' hfs hgs

/-- Where no finding stands twice the order is strict. -/
theorem pairwise_precedes (hfs : fs.Pairwise NotAfter) (hnodup : fs.Nodup) :
    fs.Pairwise fun f g => f.precedes g = true :=
  hfs.imp₂ (fun _ _ hfg hne => (notAfter_iff.1 hfg).resolve_left hne) hnodup

end Finding

/-! ## Mistakes -/

/-- A variable stands in an expression. -/
inductive Expr.Mentions (name : Text) : Expr → Prop
  | var : Mentions name (.var name)
  | left {op : Operator} {l r : Expr} (h : Mentions name l) : Mentions name (.binary op l r)
  | right {op : Operator} {l r : Expr} (h : Mentions name r) : Mentions name (.binary op l r)

theorem Expr.mem_reads {e : Expr} {name : Text} : name ∈ e.reads ↔ e.Mentions name := by
  induction e with
  | var x =>
    rw [reads, List.mem_singleton]
    constructor
    · rintro rfl
      exact .var
    · rintro ⟨⟩
      rfl
  | number t => exact ⟨nofun, nofun⟩
  | quotation t => exact ⟨nofun, nofun⟩
  | hole => exact ⟨nofun, nofun⟩
  | binary op l r ihl ihr =>
    rw [reads, List.mem_append, ihl, ihr]
    constructor
    · rintro (h | h)
      · exact .left h
      · exact .right h
    · rintro (_ | h | h)
      · exact .inl h
      · exact .inr h

namespace Action

/-- A variable is read by the value of a `let`, the condition of an `if` or an expression of a
`print`. -/
inductive Reads (name : Text) : Action → Prop
  | value {target : Text} {e : Expr} (h : e.Mentions name) : Reads name (.assign target e)
  | condition {c : Expr} {label : Text} (h : c.Mentions name) : Reads name (.branch c label)
  | item {items : List PrintItem} {e : Expr} (hitem : .value e ∈ items) (h : e.Mentions name) :
    Reads name (.print items)

/-- A variable is the target of a `let` or an `input`. -/
inductive Assigns (name : Text) : Action → Prop
  | value {e : Expr} : Assigns name (.assign name e)
  | input : Assigns name (.input name)

variable {a : Action} {name : Text}

theorem mem_reads : name ∈ a.reads ↔ a.Reads name := by
  cases a with
  | assign target e =>
    rw [reads, Expr.mem_reads]
    exact ⟨.value, fun | .value h => h⟩
  | branch c label =>
    rw [reads, Expr.mem_reads]
    exact ⟨.condition, fun | .condition h => h⟩
  | input target => exact ⟨nofun, nofun⟩
  | print items =>
    rw [reads, List.mem_flatMap]
    constructor
    · rintro ⟨_ | e, hitem, h⟩
      · cases h
      · exact .item hitem (Expr.mem_reads.1 h)
    · rintro (_ | _ | ⟨hitem, h⟩)
      exact ⟨_, hitem, Expr.mem_reads.2 h⟩

theorem target?_eq_some : a.target? = some name ↔ a.Assigns name := by
  constructor
  · intro h
    cases a with
    | assign target e =>
      cases h
      exact .value
    | input target =>
      cases h
      exact .input
    | branch => cases h
    | print => cases h
  · rintro (_ | _) <;> rfl

theorem goto?_eq_some {label : Text} : a.goto? = some label ↔ ∃ c, a = .branch c label := by
  constructor
  · intro h
    cases a with
    | branch c label' =>
      cases h
      exact ⟨c, rfl⟩
    | assign => cases h
    | print => cases h
    | input => cases h
  · rintro ⟨c, rfl⟩
    rfl

end Action

namespace Program

variable {p : Program} {f : Finding}

/-- The lines that read a variable. -/
def readers (p : Program) (name : Text) : Set Nat :=
  {n | ∃ s, p.stmt? n = some s ∧ s.action.Reads name}

/-- The lines that assign a variable. -/
def assigners (p : Program) (name : Text) : Set Nat :=
  {n | ∃ s, p.stmt? n = some s ∧ s.action.Assigns name}

/-- The lines that branch to a label. -/
def branches (p : Program) (label : Text) : Set Nat :=
  {n | ∃ s, p.stmt? n = some s ∧ ∃ c, s.action = .branch c label}

/-- **The mistakes of a program**: a branch to a label that no line carries, a line with a label whose
last line is another, and the first line that reads a variable that no line assigns. -/
inductive Mistake (p : Program) : Finding → Prop
  | missingLabel {n : Nat} {label : Text} (hbranch : n ∈ p.branches label)
      (hcarriers : p.carriers label = ∅) : Mistake p ⟨n, .missingLabel label⟩
  | replacedLabel {n last : Nat} {label : Text} (hcarrier : n ∈ p.carriers label)
      (hlast : IsGreatest (p.carriers label) last) (hne : n ≠ last) :
    Mistake p ⟨n, .replacedLabel label last⟩
  | unassigned {n : Nat} {name : Text} (hfirst : IsLeast (p.readers name) n)
      (hassigners : p.assigners name = ∅) : Mistake p ⟨n, .unassigned name⟩

/-! ## Where names stand -/

/-- The entries that the lines of names are gathered from. -/
def nameEntries (p : Program) (names : Action → List Text) : List (Text × Nat) :=
  p.statements.flatMap fun (line, s) => (names s.action).map fun n => (n, line)

/-- The lines of a name, in order. -/
def nameLines (p : Program) (names : Action → List Text) (name : Text) : List Nat :=
  Table.valuesOf (p.nameEntries names) name

variable {names : Action → List Text} {name : Text} {n : Nat} {lines : List Nat}

theorem mem_nameLines :
    n ∈ p.nameLines names name ↔ ∃ s, p.stmt? n = some s ∧ name ∈ names s.action := by
  rw [nameLines, Table.mem_valuesOf]
  simp only [nameEntries, List.mem_flatMap, List.mem_map, Prod.exists, Prod.mk.injEq]
  constructor
  · rintro ⟨line, s, hmem, _, hname, rfl, rfl⟩
    exact ⟨s, mem_statements.1 hmem, hname⟩
  · rintro ⟨s, hs, hname⟩
    exact ⟨n, s, mem_statements.2 hs, name, hname, rfl, rfl⟩

theorem mem_linesOf :
    (name, lines) ∈ p.linesOf names ↔ lines = p.nameLines names name ∧ lines ≠ [] :=
  Table.mem_gather

theorem mem_gotos {label : Text} : (label, lines) ∈ p.usage.gotos ↔
    lines = p.nameLines (fun a => a.goto?.toList) label ∧ lines ≠ [] := by
  show (label, lines) ∈ p.linesOf (fun a => a.goto?.toList) ↔ _
  exact mem_linesOf

theorem mem_read : (name, lines) ∈ p.usage.read ↔
    lines = p.nameLines Action.reads name ∧ lines ≠ [] := by
  show (name, lines) ∈ p.linesOf Action.reads ↔ _
  exact mem_linesOf

theorem ordered_gotos (p : Program) : p.usage.gotos.Ordered := Table.ordered_gather _

theorem ordered_read (p : Program) : p.usage.read.Ordered := Table.ordered_gather _

theorem linesOf_has :
    (p.linesOf names).has name = false ↔ ∀ n : Nat, n ∉ p.nameLines names name := by
  rw [Table.has, Option.isSome_eq_false_iff, Option.isNone_iff_eq_none,
    ← List.eq_nil_iff_forall_not_mem]
  show (Table.gather (p.nameEntries names)).find? name = none ↔
    Table.valuesOf (p.nameEntries names) name = []
  rw [Table.find?_gather]
  split_ifs with hnil
  · exact iff_of_true rfl (List.isEmpty_iff.1 hnil)
  · exact iff_of_false not_false fun h => hnil (List.isEmpty_iff.2 h)

theorem pairwise_statements (p : Program) : p.statements.Pairwise fun a b => a.1 < b.1 := by
  refine List.pairwise_filterMap.2 (p.pairwise_zipIdx.imp fun hlt => ?_)
  intro a ha b hb
  obtain ⟨_, -, rfl⟩ := Option.map_eq_some_iff.1 ha
  obtain ⟨_, -, rfl⟩ := Option.map_eq_some_iff.1 hb
  exact hlt

/-- The lines of a name are in the order of the program. -/
theorem pairwise_nameLines (p : Program) (names : Action → List Text) (name : Text) :
    (p.nameLines names name).Pairwise (· ≤ ·) := by
  have hentries : (p.nameEntries names).Pairwise fun a b => a.2 ≤ b.2 := by
    refine List.pairwise_flatMap.2 ⟨fun e _ => ?_, p.pairwise_statements.imp fun hlt => ?_⟩
    · exact List.pairwise_map.2 (List.pairwise_of_forall fun _ _ => Nat.le_refl _)
    · intro a ha b hb
      obtain ⟨_, -, rfl⟩ := List.mem_map.1 ha
      obtain ⟨_, -, rfl⟩ := List.mem_map.1 hb
      exact Nat.le_of_lt hlt
  exact List.pairwise_map.2 (hentries.filter _)

/-- A line that can use one name only is not listed twice. -/
theorem nodup_nameLines (p : Program) (name? : Action → Option Text) (name : Text) :
    (p.nameLines (fun a => (name? a).toList) name).Nodup := by
  have hentries : (p.nameEntries fun a => (name? a).toList).Pairwise fun a b => a.2 ≠ b.2 := by
    refine List.pairwise_flatMap.2 ⟨fun ⟨line, s⟩ _ => ?_, p.pairwise_statements.imp fun hlt => ?_⟩
    · dsimp only
      cases name? s.action with
      | none => exact List.Pairwise.nil
      | some x => exact List.pairwise_singleton _ _
    · intro a ha b hb
      obtain ⟨_, -, rfl⟩ := List.mem_map.1 ha
      obtain ⟨_, -, rfl⟩ := List.mem_map.1 hb
      exact Nat.ne_of_lt hlt
  exact List.pairwise_map.2 (hentries.filter _)

/-! ## What is found for one entry of a table -/

/-- What is found for a label that lines branch to. -/
def missingOf (p : Program) (entry : Text × List Nat) : List Finding :=
  if p.labels.has entry.1 then [] else entry.2.map fun line => ⟨line, .missingLabel entry.1⟩

/-- What is found for a label that several lines carry. -/
def replacedOf (entry : Text × List Nat) : List Finding :=
  entry.2.dropLast.map fun line => ⟨line, .replacedLabel entry.1 (entry.2.getLast?.getD 0)⟩

/-- What is found for a variable that lines read. -/
def unassignedOf (p : Program) (entry : Text × List Nat) : List Finding :=
  if p.usage.assigned.has entry.1 then []
  else (entry.2.take 1).map fun line => ⟨line, .unassigned entry.1⟩

theorem missingLabels_eq (p : Program) : p.missingLabels = p.usage.gotos.flatMap p.missingOf := rfl

theorem replacedLabels_eq (p : Program) : p.replacedLabels = p.redefined.flatMap replacedOf := rfl

theorem unassignedReads_eq (p : Program) :
    p.unassignedReads = p.usage.read.flatMap p.unassignedOf := rfl

theorem mem_branches {label : Text} :
    n ∈ p.nameLines (fun a => a.goto?.toList) label ↔ n ∈ p.branches label := by
  simp only [mem_nameLines, Option.mem_toList, Action.goto?_eq_some]
  rfl

theorem mem_assigners :
    n ∈ p.nameLines (fun a => a.target?.toList) name ↔ n ∈ p.assigners name := by
  simp only [mem_nameLines, Option.mem_toList, Action.target?_eq_some]
  rfl

theorem mem_readers : n ∈ p.nameLines Action.reads name ↔ n ∈ p.readers name := by
  simp only [mem_nameLines, Action.mem_reads]
  rfl

theorem mem_missingLabels : f ∈ p.missingLabels ↔
    ∃ n label, n ∈ p.branches label ∧ p.carriers label = ∅ ∧ f = ⟨n, .missingLabel label⟩ := by
  have hhas : ∀ label, p.labels.has label = false ↔ p.carriers label = ∅ := by
    intro label
    rw [Table.has, Option.isSome_eq_false_iff, Option.isNone_iff_eq_none, labels_find?_eq_none]
  rw [missingLabels_eq, List.mem_flatMap]
  constructor
  · rintro ⟨⟨label, lines⟩, hentry, hf⟩
    obtain ⟨rfl, -⟩ := mem_gotos.1 hentry
    rw [missingOf] at hf
    split_ifs at hf with hlabel
    · cases hf
    · obtain ⟨n, hn, rfl⟩ := List.mem_map.1 hf
      exact ⟨n, label, mem_branches.1 hn, (hhas label).1 (Bool.eq_false_iff.2 hlabel), rfl⟩
  · rintro ⟨n, label, hbranch, hcarriers, rfl⟩
    have hn := mem_branches.2 hbranch
    refine ⟨(label, _), mem_gotos.2 ⟨rfl, List.ne_nil_of_mem hn⟩, ?_⟩
    rw [missingOf, (hhas label).2 hcarriers]
    exact List.mem_map.2 ⟨n, hn, rfl⟩

/-- Of numbers that increase all but the last are smaller than the last. -/
theorem mem_dropLast_iff {ns : List Nat} (h : ns.Pairwise (· < ·)) {last : Nat}
    (hlast : ns.getLast? = some last) : n ∈ ns.dropLast ↔ n ∈ ns ∧ n ≠ last := by
  obtain ⟨ks, rfl⟩ := List.getLast?_eq_some_iff.1 hlast
  have hlt := (List.pairwise_append.1 h).2.2
  rw [List.dropLast_concat, List.mem_append, List.mem_singleton]
  constructor
  · exact fun hn => ⟨.inl hn, Nat.ne_of_lt (hlt n hn last List.mem_cons_self)⟩
  · exact fun hn => hn.1.resolve_right hn.2

theorem mem_replacedLabels : f ∈ p.replacedLabels ↔
    ∃ n label last, n ∈ p.carriers label ∧ IsGreatest (p.carriers label) last ∧ n ≠ last ∧
      f = ⟨n, .replacedLabel label last⟩ := by
  have hlast : ∀ label last, (p.carrierLines label).getLast? = some last ↔
      IsGreatest (p.carriers label) last := by
    intro label last
    rw [getLast?_eq_some_iff_isGreatest (p.pairwise_carrierLines label)]
    simp only [mem_carrierLines, Set.ofPred_mem_eq]
  rw [replacedLabels_eq, List.mem_flatMap]
  constructor
  · rintro ⟨⟨label, lines⟩, hentry, hf⟩
    obtain ⟨rfl, -⟩ := mem_redefined.1 hentry
    obtain ⟨n, hn, rfl⟩ := List.mem_map.1 hf
    obtain ⟨last, heq⟩ : ∃ last, (p.carrierLines label).getLast? = some last :=
      ⟨_, List.getLast?_eq_some_getLast (List.ne_nil_of_mem (List.mem_of_mem_dropLast hn))⟩
    obtain ⟨hmem, hne⟩ := (mem_dropLast_iff (p.pairwise_carrierLines label) heq).1 hn
    refine ⟨n, label, last, mem_carrierLines.1 hmem, (hlast label last).1 heq, hne, ?_⟩
    rw [heq]
    rfl
  · rintro ⟨n, label, last, hcarrier, hgreatest, hne, rfl⟩
    have heq := (hlast label last).2 hgreatest
    have hlt : n < last := Nat.lt_of_le_of_ne (hgreatest.2 hcarrier) hne
    have hlength := one_lt_length_carrierLines.2 ⟨n, hcarrier, last, hgreatest.1, hlt⟩
    refine ⟨(label, _), mem_redefined.2 ⟨rfl, hlength⟩, List.mem_map.2 ⟨n, ?_, ?_⟩⟩
    · exact (mem_dropLast_iff (p.pairwise_carrierLines label) heq).2
        ⟨mem_carrierLines.2 hcarrier, hne⟩
    · rw [heq]
      rfl

/-- The first of numbers in order is the least of them. -/
theorem head?_eq_some_iff_isLeast {ns : List Nat} (h : ns.Pairwise (· ≤ ·)) :
    ns.head? = some n ↔ IsLeast {k | k ∈ ns} n := by
  cases ns with
  | nil => exact ⟨nofun, fun h => absurd h.1 List.not_mem_nil⟩
  | cons first ns =>
    have hfirst : ∀ k ∈ first :: ns, first ≤ k :=
      List.forall_mem_cons.2 ⟨Nat.le_refl _, (List.pairwise_cons.1 h).1⟩
    rw [List.head?_cons, Option.some.injEq]
    constructor
    · rintro rfl
      exact ⟨List.mem_cons_self, hfirst⟩
    · rintro ⟨hn, hle⟩
      exact Nat.le_antisymm (hfirst n hn) (hle List.mem_cons_self)

theorem head?_readers :
    (p.nameLines Action.reads name).head? = some n ↔ IsLeast (p.readers name) n := by
  rw [head?_eq_some_iff_isLeast (p.pairwise_nameLines Action.reads name)]
  simp only [mem_readers, Set.ofPred_mem_eq]

theorem mem_unassignedReads : f ∈ p.unassignedReads ↔
    ∃ n name, IsLeast (p.readers name) n ∧ p.assigners name = ∅ ∧ f = ⟨n, .unassigned name⟩ := by
  have hhas : ∀ name, p.usage.assigned.has name = false ↔ p.assigners name = ∅ := by
    intro name
    rw [Set.eq_empty_iff_forall_notMem]
    exact linesOf_has.trans (forall_congr' fun n => not_congr mem_assigners)
  rw [unassignedReads_eq, List.mem_flatMap]
  constructor
  · rintro ⟨⟨name, lines⟩, hentry, hf⟩
    obtain ⟨rfl, -⟩ := mem_read.1 hentry
    rw [unassignedOf] at hf
    split_ifs at hf with hassigned
    · cases hf
    · obtain ⟨n, hn, rfl⟩ := List.mem_map.1 hf
      rw [List.take_one, Option.mem_toList] at hn
      exact ⟨n, name, head?_readers.1 hn, (hhas name).1 (Bool.eq_false_iff.2 hassigned), rfl⟩
  · rintro ⟨n, name, hleast, hassigners, rfl⟩
    have hn := head?_readers.2 hleast
    have hne : p.nameLines Action.reads name ≠ [] := List.ne_nil_of_mem (mem_readers.2 hleast.1)
    refine ⟨(name, _), mem_read.2 ⟨rfl, hne⟩, ?_⟩
    rw [unassignedOf, (hhas name).2 hassigners, List.take_one, hn]
    exact List.mem_cons_self

/-- All that is found, in the order of the tables. -/
def collected (p : Program) : List Finding :=
  p.missingLabels ++ p.replacedLabels ++ p.unassignedReads

theorem mem_collected : f ∈ p.collected ↔ p.Mistake f := by
  rw [collected, List.mem_append, List.mem_append, mem_missingLabels, mem_replacedLabels,
    mem_unassignedReads]
  constructor
  · rintro ((⟨n, label, hbranch, hcarriers, rfl⟩ | ⟨n, label, last, hcarrier, hlast, hne, rfl⟩) |
      ⟨n, name, hfirst, hassigners, rfl⟩)
    · exact .missingLabel hbranch hcarriers
    · exact .replacedLabel hcarrier hlast hne
    · exact .unassigned hfirst hassigners
  · intro h
    cases h with
    | missingLabel hbranch hcarriers => exact .inl (.inl ⟨_, _, hbranch, hcarriers, rfl⟩)
    | replacedLabel hcarrier hlast hne => exact .inl (.inr ⟨_, _, _, hcarrier, hlast, hne, rfl⟩)
    | unassigned hfirst hassigners => exact .inr ⟨_, _, hfirst, hassigners, rfl⟩

/-- **The findings are the mistakes.** -/
theorem mem_findings : f ∈ p.findings ↔ p.Mistake f := Finding.mem_sorted.trans mem_collected

/-! ## Each once -/

/-- Nothing is found twice if nothing is found twice for one name. -/
theorem nodup_flatMap {t : Table (List Nat)} (ht : t.Ordered)
    {found : Text × List Nat → List Finding} (hsubject : ∀ e ∈ t, ∀ f ∈ found e, f.issue.subject = e.1)
    (hfound : ∀ e ∈ t, (found e).Nodup) : (t.flatMap found).Nodup := by
  refine List.nodup_flatMap.2 ⟨hfound, ht.imp_of_mem fun he he' hbefore => ?_⟩
  intro f hf hf'
  rw [← hsubject _ he f hf, hsubject _ he' f hf', Text.before_irrefl] at hbefore
  cases hbefore

theorem nodup_missingLabels (p : Program) : p.missingLabels.Nodup := by
  rw [missingLabels_eq]
  refine nodup_flatMap p.ordered_gotos (fun e _ f hf => ?_) fun ⟨label, lines⟩ he => ?_
  · rw [missingOf] at hf
    split_ifs at hf
    · cases hf
    · obtain ⟨_, -, rfl⟩ := List.mem_map.1 hf
      rfl
  · obtain ⟨rfl, -⟩ := mem_gotos.1 he
    rw [missingOf]
    split_ifs
    · exact List.nodup_nil
    · refine (p.nodup_nameLines Action.goto? label).map fun n k h => ?_
      cases h
      rfl

theorem nodup_replacedLabels (p : Program) : p.replacedLabels.Nodup := by
  refine nodup_flatMap p.ordered_redefined (fun e _ f hf => ?_) fun ⟨label, lines⟩ he => ?_
  · obtain ⟨_, -, rfl⟩ := List.mem_map.1 hf
    rfl
  · obtain ⟨rfl, -⟩ := mem_redefined.1 he
    have hlines : (p.carrierLines label).Nodup :=
      (p.pairwise_carrierLines label).imp fun hlt => Nat.ne_of_lt hlt
    refine (hlines.sublist (List.dropLast_sublist _)).map fun n k h => ?_
    cases h
    rfl

theorem nodup_unassignedReads (p : Program) : p.unassignedReads.Nodup := by
  rw [unassignedReads_eq]
  refine nodup_flatMap p.ordered_read (fun e _ f hf => ?_) fun ⟨name, lines⟩ _ => ?_
  · rw [unassignedOf] at hf
    split_ifs at hf
    · cases hf
    · obtain ⟨_, -, rfl⟩ := List.mem_map.1 hf
      rfl
  · rw [unassignedOf]
    split_ifs
    · exact List.nodup_nil
    · cases lines with
      | nil => exact List.nodup_nil
      | cons line rest => exact List.nodup_singleton _

/-- **No finding is collected twice.** -/
theorem nodup_collected (p : Program) : p.collected.Nodup := by
  have hlabels : (p.missingLabels ++ p.replacedLabels).Nodup := by
    refine p.nodup_missingLabels.append p.nodup_replacedLabels fun f hf hf' => ?_
    obtain ⟨_, _, -, -, rfl⟩ := mem_missingLabels.1 hf
    obtain ⟨_, _, _, -, -, -, ⟨⟩⟩ := mem_replacedLabels.1 hf'
  refine hlabels.append p.nodup_unassignedReads fun f hf hf' => ?_
  obtain ⟨_, _, -, -, rfl⟩ := mem_unassignedReads.1 hf'
  rcases List.mem_append.1 hf with hf | hf
  · obtain ⟨_, _, -, -, ⟨⟩⟩ := mem_missingLabels.1 hf
  · obtain ⟨_, _, _, -, -, -, ⟨⟩⟩ := mem_replacedLabels.1 hf

theorem pairwise_findings (p : Program) :
    p.findings.Pairwise fun f g => f.precedes g = true :=
  Finding.pairwise_precedes (Finding.pairwise_sorted _)
    ((Finding.perm_sorted p.collected).nodup_iff.2 p.nodup_collected)

/-! ## Any order of the tables -/

/-- An order to go through the tables in. -/
structure Enumeration (p : Program) where
  gotos : List (Text × List Nat)
  redefined : List (Text × List Nat)
  read : List (Text × List Nat)
  perm_gotos : gotos.Perm p.usage.gotos
  perm_redefined : redefined.Perm p.redefined
  perm_read : read.Perm p.usage.read

namespace Enumeration

/-- What is found in that order. -/
def collected (e : p.Enumeration) : List Finding :=
  e.gotos.flatMap p.missingOf ++ e.redefined.flatMap replacedOf ++ e.read.flatMap p.unassignedOf

theorem perm_collected (e : p.Enumeration) : e.collected.Perm p.collected :=
  ((e.perm_gotos.flatMap_right _).append (e.perm_redefined.flatMap_right _)).append
    (e.perm_read.flatMap_right _)

/-- **In whatever order the tables are gone through, and however ties are broken, what is found and
put in order is the findings.** -/
theorem perm_and_pairwise_iff (e : p.Enumeration) {fs : List Finding} :
    fs.Perm e.collected ∧ fs.Pairwise Finding.NotAfter ↔ fs = p.findings := by
  have hfindings : p.findings.Perm e.collected :=
    (Finding.perm_sorted p.collected).trans e.perm_collected.symm
  constructor
  · rintro ⟨hperm, hfs⟩
    exact Finding.eq_of_perm (hperm.trans hfindings.symm) hfs (Finding.pairwise_sorted _)
  · rintro rfl
    exact ⟨hfindings, Finding.pairwise_sorted _⟩

end Enumeration

/-! ## Single mistakes -/

/-- A branch to a label that no line carries is found. -/
theorem missingLabel_mem {s : Stmt} {label : Text} (hs : p.stmt? n = some s)
    (hgoto : s.action.goto? = some label) (hlabel : p.labels.find? label = none) :
    ⟨n, .missingLabel label⟩ ∈ p.findings :=
  mem_findings.2 (.missingLabel ⟨s, hs, Action.goto?_eq_some.1 hgoto⟩ (labels_find?_eq_none.1 hlabel))

/-- A variable that a finding calls unassigned is assigned on no line. -/
theorem not_assigned (h : ⟨n, .unassigned name⟩ ∈ p.findings) {k : Nat} {s : Stmt}
    (hs : p.stmt? k = some s) : s.action.target? ≠ some name := by
  intro htarget
  cases mem_findings.1 h with
  | unassigned _ hassigners =>
    have hk : k ∈ p.assigners name := ⟨s, hs, Action.target?_eq_some.1 htarget⟩
    rw [hassigners] at hk
    exact hk

/-- The first read of a variable that no line assigns is found. -/
theorem unassigned_mem {s : Stmt} (hs : p.stmt? n = some s) (hread : name ∈ s.action.reads)
    (hassigned : ∀ (k : Nat) s', p.stmt? k = some s' → s'.action.target? ≠ some name) :
    ∃ k ≤ n, ⟨k, .unassigned name⟩ ∈ p.findings := by
  have hn : n ∈ p.readers name := ⟨s, hs, Action.mem_reads.1 hread⟩
  have hassigners : p.assigners name = ∅ := by
    refine Set.eq_empty_iff_forall_notMem.2 fun k hk => ?_
    obtain ⟨s', hs', hassigns⟩ := hk
    exact hassigned k s' hs' (Action.target?_eq_some.2 hassigns)
  have hne : p.nameLines Action.reads name ≠ [] := List.ne_nil_of_mem (mem_readers.2 hn)
  have hfirst := head?_readers.1 (List.head?_eq_some_head hne)
  exact ⟨_, hfirst.2 hn, mem_findings.2 (.unassigned hfirst hassigners)⟩

end Program

/-- **The findings list each mistake of a program once, in one order.** Whatever the order that the
tables are gone through, every way to put what is found in order gives the findings. They stand
strictly in the order of their lines and of their messages on one line, findings that differ are
shown differently, and what is found is the mistakes of the program and nothing else. -/
theorem findings_list_each_mistake_once (p : Program) :
    (∀ (e : p.Enumeration) (fs : List Finding),
      fs.Perm e.collected ∧ fs.Pairwise (fun f g => g.precedes f = false) ↔ fs = p.findings) ∧
    p.findings.Pairwise (fun f g => f.line < g.line ∨
      f.line = g.line ∧ f.issue.message.before g.issue.message = true) ∧
    Function.Injective (fun f : Finding => (f.line, f.issue.message)) ∧
    ∀ f, f ∈ p.findings ↔ p.Mistake f :=
  ⟨fun e _ => e.perm_and_pairwise_iff,
    p.pairwise_findings.imp Finding.precedes_iff.1,
    Finding.shown_injective,
    fun _ => Program.mem_findings⟩

example : (Program.load "three" "a: let x = y\na: if x + y goto b\n").toOption.map Program.findings =
    some [⟨1, .replacedLabel "a" 2⟩, ⟨1, .unassigned "y"⟩, ⟨2, .missingLabel "b"⟩] := by
  decide +kernel

end TinyLang
