import TinyLang.Proofs.Code.Globals

/-!
# Compiled modules are well formed

* `Parts`: the blocks of a compiled module, line by line, with the registers and block numbers that
  each line takes up. `foldlM_parts` says that this is how blocks are laid out.
* `Parts.results`, `Parts.auxs`: over all lines the registers are assigned, and the blocks that are
  no lines are numbered, one after the other.
* `IsPart.targets`, `IsPart.available`, `IsPart.closed`, `IsPart.globals`: branches, registers, ends
  and globals of the blocks of one line.
* `Module.Assigns`: every variable and every text has globals of its own, which the code uses.
* `compile_wellFormed`: the headline. A loaded program compiles to a well-formed module.
-/

namespace TinyLang

namespace Code

/-! ## Blocks line by line -/

/-- The blocks of lines from `line` on, those of one line together, with registers from `reg` on and
block numbers from `aux` on. -/
inductive Parts (ns : Names) : (line reg aux : Nat) → List (Option Stmt) → List (List Block) → Prop
  | nil {line reg aux : Nat} : Parts ns line reg aux [] []
  | blank {line reg aux : Nat} {rest : List (Option Stmt)} {parts : List (List Block)}
      (h : Parts ns (line + 1) reg aux rest parts) :
      Parts ns line reg aux (none :: rest)
        ([⟨.line line, [], .jump (ns.block (line + 1))⟩] :: parts)
  | code {line reg aux : Nat} {s : Stmt} {r : Routine} {first : Block} {others : List Block}
      {rest : List (Option Stmt)} {parts : List (List Block)}
      (hr : routineOf ns line reg s.action = .ok r)
      (hcut : cutBlocks line r.tail (.line line) [] aux r.steps = first :: others)
      (h : Parts ns (line + 1) r.next (aux + others.length) rest parts) :
      Parts ns line reg aux (some s :: rest) ((first :: others) :: parts)

/-- The blocks of one line, given what stands on it. -/
inductive IsPart (ns : Names) (line : Nat) : Option Stmt → List Block → Prop
  | blank : IsPart ns line none [⟨.line line, [], .jump (ns.block (line + 1))⟩]
  | code {reg aux : Nat} {s : Stmt} {r : Routine} (hr : routineOf ns line reg s.action = .ok r) :
      IsPart ns line (some s) (cutBlocks line r.tail (.line line) [] aux r.steps)

namespace Parts

variable {ns : Names} {line reg aux : Nat} {stmts : List (Option Stmt)} {parts : List (List Block)}

theorem isPart (h : Parts ns line reg aux stmts parts) {k : Nat} {bs : List Block}
    (hbs : parts[k]? = some bs) : ∃ s?, stmts[k]? = some s? ∧ IsPart ns (line + k) s? bs := by
  induction h generalizing k with
  | nil => cases hbs
  | blank h ih =>
    cases k with
    | zero =>
      cases hbs
      exact ⟨none, rfl, .blank⟩
    | succ k =>
      obtain ⟨s?, hs, hpart⟩ := ih hbs
      rw [Nat.add_right_comm] at hpart
      exact ⟨s?, hs, hpart⟩
  | code hr hcut h ih =>
    cases k with
    | zero =>
      cases hbs
      rw [← hcut]
      exact ⟨_, rfl, .code hr⟩
    | succ k =>
      obtain ⟨s?, hs, hpart⟩ := ih hbs
      rw [Nat.add_right_comm] at hpart
      exact ⟨s?, hs, hpart⟩

theorem isPart_of_mem (h : Parts ns line reg aux stmts parts) {bs : List Block} (hbs : bs ∈ parts) :
    ∃ k s?, stmts[k]? = some s? ∧ IsPart ns (line + k) s? bs := by
  obtain ⟨k, hk⟩ := List.mem_iff_getElem?.1 hbs
  exact ⟨k, h.isPart hk⟩

theorem length (h : Parts ns line reg aux stmts parts) : parts.length = stmts.length := by
  induction h with
  | nil => rfl
  | blank h ih => rw [List.length_cons, List.length_cons, ih]
  | code hr hcut h ih => rw [List.length_cons, List.length_cons, ih]

/-- **The blocks that are no lines are numbered one after the other**, through all lines. -/
theorem auxs (h : Parts ns line reg aux stmts parts) :
    ∃ n, parts.flatMap (fun bs => (bs.map Block.label).tail) = (List.range' aux n).map Label.aux := by
  induction h with
  | nil => exact ⟨0, rfl⟩
  | blank h ih => exact ih
  | @code line reg aux s r first others rest parts hr hcut h ih =>
    obtain ⟨n, hn⟩ := ih
    obtain ⟨k, hk⟩ := cutBlocks_labels line r.tail (.line line) [] aux r.steps
    rw [hcut, List.map_cons, List.cons.injEq] at hk
    have hlen : others.length = k := by
      have := congrArg List.length hk.2
      simpa using this
    refine ⟨k + n, ?_⟩
    rw [List.flatMap_cons, List.map_cons, List.tail_cons, hk.2, hn, hlen, ← List.map_append,
      List.range'_append_1]

/-- **Registers are assigned one after the other**, through all lines. -/
theorem results (h : Parts ns line reg aux stmts parts) :
    ∃ n, parts.flatten.flatMap Block.results = List.range' reg n := by
  induction h with
  | nil => exact ⟨0, rfl⟩
  | blank h ih => exact ih
  | @code line reg aux s r first others rest parts hr hcut h ih =>
    obtain ⟨n, hn⟩ := ih
    obtain ⟨hnum, -⟩ := routineOf_numbered hr
    have hle := hnum.le
    refine ⟨r.next - reg + n, ?_⟩
    rw [List.flatten_cons, List.flatMap_append, hn, ← hcut, cutBlocks_results, hnum.results]
    have hnext : r.next = reg + (r.next - reg) := by omega
    nth_rewrite 2 [hnext]
    exact List.range'_append_1

end Parts

/-- Laying out lines adds the first block of each line to those of lines, and its other blocks to
the others. -/
theorem foldlM_parts {ns : Names} {rest : List Slot} {line : Nat} {lay lay' : Layout}
    (h : (rest.zipIdx line).foldlM
      (fun lay (slot, line) => Layout.addLine ns lay line slot.stmt?) lay = .ok lay') :
    ∃ parts, Parts ns line lay.reg lay.aux (rest.map Slot.stmt?) parts ∧
      lay'.lines.reverse = lay.lines.reverse ++ parts.flatMap (List.take 1) ∧
      lay'.others.reverse = lay.others.reverse ++ parts.flatMap (List.drop 1) := by
  induction rest generalizing line lay with
  | nil =>
    cases h
    exact ⟨[], .nil, (List.append_nil _).symm, (List.append_nil _).symm⟩
  | cons slot rest ih =>
    rw [List.zipIdx_cons, List.foldlM_cons] at h
    obtain ⟨lay₁, hadd, h⟩ := bind_eq_ok.mp h
    obtain ⟨parts, hparts, hlines, hothers⟩ := ih h
    simp only [Layout.addLine] at hadd
    rw [List.map_cons]
    cases hs : slot.stmt? with
    | none =>
      rw [hs] at hadd
      cases hadd
      refine ⟨_, .blank hparts, ?_, ?_⟩
      · rw [hlines, List.reverse_cons, List.append_assoc]
        rfl
      · rw [hothers]
        rfl
    | some s =>
      rw [hs] at hadd
      dsimp only at hadd
      cases hr : routineOf ns line lay.reg s.action with
      | error fault =>
        rw [hr] at hadd
        cases hadd
      | ok r =>
        obtain ⟨more, term, others, hcut⟩ :=
          cutBlocks_head line r.tail (.line line) [] lay.aux r.steps
        simp only [hr, hcut] at hadd
        cases hadd
        refine ⟨_, .code hr hcut hparts, ?_, ?_⟩
        · rw [hlines, List.reverse_cons, List.append_assoc]
          rfl
        · rw [hothers, List.reverse_append, List.reverse_reverse, List.append_assoc]
          rfl

/-! ## The blocks of one line -/

theorem Names.block_ne (ns : Names) (k : Nat) : ns.block k ≠ .entry ∧ ∀ id, ns.block k ≠ .aux id := by
  unfold Names.block
  split_ifs <;> simp

namespace IsPart

variable {ns : Names} {line : Nat} {s? : Option Stmt} {bs : List Block} (h : IsPart ns line s? bs)
include h

theorem label : (bs.map Block.label).head? = some (.line line) := by
  cases h with
  | blank => rfl
  | @code reg aux s r hr =>
    obtain ⟨n, hn⟩ := cutBlocks_labels line r.tail (.line line) [] aux r.steps
    rw [hn]
    rfl

/-- A block branches to a line, or to another block of its own line. -/
theorem targets {b : Block} (hb : b ∈ bs) {l : Label} (hl : l ∈ b.terminator.targets) :
    (∃ k, l = ns.block k) ∨ (∃ id, l = .aux id) ∧ l ∈ bs.map Block.label := by
  cases h with
  | blank =>
    cases List.mem_singleton.1 hb
    exact .inl ⟨_, List.mem_singleton.1 hl⟩
  | code hr =>
    rcases cutBlocks_targets hb hl with hout | ⟨id, -, rfl, hin⟩
    · exact .inl ((routineOf_numbered hr).2.2 l hout)
    · exact .inr ⟨⟨id, rfl⟩, hin⟩

theorem available {M : Module} (hsub : bs ⊆ M.blocks) (howns : M.Owns 0 bs) :
    ∀ b ∈ bs, ∀ before r, b.ReadsAfter before r → M.Available b before r := by
  cases h with
  | blank =>
    intro b hb before r hread
    cases List.mem_singleton.1 hb
    have hnil : M.Grounded (.line line) 0 [] := .nil
    exact hnil.available hread (List.forall_mem_nil _)
  | code hr =>
    obtain ⟨hnum, hreads, htargets⟩ := routineOf_numbered hr
    refine cutBlocks_available hreads ?_ hnum
      { blocks := hsub
        owns := fun x hx id _ => howns x hx id (Nat.zero_le _)
        below := nofun
        known := fun x hlo hlt => absurd hlo (Nat.not_le.2 hlt)
        grounded := .nil }
    intro l hl id heq
    obtain ⟨k, rfl⟩ := htargets l hl
    exact (ns.block_ne k).2 id heq

theorem closed : ∀ b ∈ bs, b.Closed := by
  cases h with
  | blank =>
    exact List.forall_mem_singleton.2
      (.onward (List.forall_mem_nil _) ⟨nofun, nofun⟩ Label.noConfusion)
  | code hr =>
    exact cutBlocks_closed Label.noConfusion (List.forall_mem_nil _)
      fun i hi => (routineOf_numbered hr).1.plain hi

/-- The blocks of a line refer to the globals that the statement on it calls for. -/
theorem globals :
    gathered Instr.accesses bs =
        s?.elim [] (fun s => accessesOfAction ns.slot ns.text s.action) ∧
      gathered Instr.reports bs = s?.elim [] fun s => reportsOfAction ns.text ns.labels s.action := by
  cases h with
  | blank => exact ⟨rfl, rfl⟩
  | @code reg aux s r hr =>
    obtain ⟨haccesses, hreports⟩ := routineOf_globals line hr
    constructor
    · have hreport : ∀ i : Instr, i.isReport = true → i.accesses = [] := fun i hi => if_pos hi
      rw [gathered_cutBlocks hreport]
      exact haccesses
    · have hother : ∀ i : Instr, i.isReport = false → i.reports = [] := fun i hi =>
        if_neg (by rw [hi]; exact Bool.false_ne_true)
      obtain ⟨first, others, hcut, hfirst, hothers⟩ := @cutBlocks_reports _ line r.tail _ hother
        (.line line) [] aux r.steps (List.forall_mem_nil _)
        fun i hi => (routineOf_numbered hr).1.plain hi
      rw [hcut, gathered_cons, hfirst, hothers]
      exact hreports

end IsPart

/-! ## The module -/

theorem take_drop_perm (parts : List (List Block)) :
    (parts.flatMap (List.take 1) ++ parts.flatMap (List.drop 1)).Perm parts.flatten := by
  induction parts with
  | nil => exact .nil
  | cons bs parts ih =>
    rw [List.flatMap_cons, List.flatMap_cons, List.flatten_cons]
    have hswap : (parts.flatMap (List.take 1) ++ (bs.drop 1 ++ parts.flatMap (List.drop 1))).Perm
        (bs.drop 1 ++ (parts.flatMap (List.take 1) ++ parts.flatMap (List.drop 1))) := by
      rw [← List.append_assoc, ← List.append_assoc]
      exact List.perm_append_comm.append_right _
    rw [List.append_assoc]
    refine (hswap.append_left _).trans ?_
    rw [← List.append_assoc, List.take_append_drop]
    exact ih.append_left bs

/-- A module made of an entry, the blocks of lines and an exit. -/
structure Assembled (p : Program) (M : Module) (parts : List (List Block)) : Prop where
  globals : M.globals = globalsOf p
  lined : Parts (namesOf p) 1 0 0 (p.slots.toList.map Slot.stmt?) parts
  head : (M.blocks.map Block.label).head? = some .entry
  perm : M.blocks.Perm (⟨.entry, [], .jump ((namesOf p).block 1)⟩ :: ⟨.exit, [], .ret⟩ :: parts.flatten)
  labels : (M.blocks.map Block.label).Nodup
  lines : ∀ k, (namesOf p).block k ∈ M.blocks.map Block.label

theorem compile_assembled {p : Program}
    (hsound : ∀ (i : Nat) s, p.stmt? (i + 1 : Nat) = some s → s.action.Sound) :
    ∃ M parts, compile p = .ok M ∧ Assembled p M parts := by
  obtain ⟨lay, hfold, hlaid, hcompile⟩ := compile_laid hsound
  obtain ⟨parts, hparts, hlines, hothers⟩ := foldlM_parts hfold
  rw [List.reverse_nil, List.nil_append] at hlines hothers
  refine ⟨_, parts, hcompile, rfl, hparts, rfl, ?_, hlaid.nodup _ _ rfl rfl, fun k => ?_⟩
  · simp only [Layout.toModule, hlines, hothers]
    refine .cons _ (List.perm_middle.trans (.cons _ ?_))
    exact take_drop_perm parts
  · have hlabels := hlaid.lines
    rw [List.length_map, Array.length_toList] at hlabels
    have hmem : ∀ l, l ∈ (lay.toModule p).blocks.map Block.label ↔ l = .entry ∨
        l ∈ lay.lines.reverse.map Block.label ∨ l = .exit ∨ l ∈ lay.others.reverse.map Block.label := by
      intro l
      simp [Layout.toModule]
    rw [hmem, hlabels]
    unfold Names.block
    split_ifs with hk
    · exact .inr (.inr (.inl rfl))
    · refine .inr (.inl (List.mem_map.2 ⟨k, ?_, rfl⟩))
      rw [List.mem_range'_1]
      simp only [Bool.or_eq_true, decide_eq_true_eq, not_or, Nat.not_lt] at hk
      have hsize : (namesOf p).size = p.slots.size := rfl
      omega

theorem stmt?_of_getElem? {p : Program} {k : Nat} {s? : Option Stmt}
    (hs : (p.slots.toList.map Slot.stmt?)[k]? = some s?) : p.stmt? (k + 1 : Nat) = s? := by
  have hk : k < p.size := by
    have := (List.getElem?_eq_some_iff.1 hs).1
    rwa [List.length_map, Array.length_toList] at this
  rw [getElem?_stmts hk] at hs
  exact Option.some.inj hs

theorem exists_idxOf {ts : List Text} (h : ts.Nodup) {n : Nat} (hn : n < ts.length) :
    ∃ t ∈ ts, ts.idxOf t = n := ⟨ts[n], List.getElem_mem hn, h.idxOf_getElem n hn⟩

theorem mem_slots_namesOf {p : Program} {x : Text} : x ∈ (namesOf p).slots ↔ p.Uses x := by
  show x ∈ slotNamesOf (globalsOf p) ↔ _
  rw [mem_slotNamesOf, mem_globalsOf]
  exact exists₂_congr fun n s => and_congr_right fun _ => mem_demandsOfAction_slot

theorem mem_texts_namesOf {p : Program} {t : Text} : t ∈ (namesOf p).texts ↔ p.Mentions t := by
  show t ∈ textsOf (globalsOf p) ↔ _
  rw [mem_textsOf, mem_globalsOf]
  exact exists₂_congr fun n s => and_congr_right fun _ => mem_demandsOfAction_text

namespace Assembled

variable {p : Program} {M : Module} {parts : List (List Block)} (h : Assembled p M parts)
include h

theorem mem_blocks {b : Block} : b ∈ M.blocks ↔
    b = ⟨.entry, [], .jump ((namesOf p).block 1)⟩ ∨ b = ⟨.exit, [], .ret⟩ ∨
      ∃ bs ∈ parts, b ∈ bs := by
  rw [h.perm.mem_iff, List.mem_cons, List.mem_cons, List.mem_flatten]

theorem subset_blocks {bs : List Block} (hbs : bs ∈ parts) : bs ⊆ M.blocks :=
  fun _ hb => h.mem_blocks.2 (.inr (.inr ⟨bs, hbs, hb⟩))

/-- A block branches to a line, or it is one of a line and branches to another of the same. -/
theorem targets_cases {b : Block} (hb : b ∈ M.blocks) {l : Label} (hl : l ∈ b.terminator.targets) :
    (∃ k, l = (namesOf p).block k) ∨
      (∃ id, l = .aux id) ∧ ∃ bs ∈ parts, b ∈ bs ∧ l ∈ bs.map Block.label := by
  rcases h.mem_blocks.1 hb with rfl | rfl | ⟨bs, hbs, hb⟩
  · exact .inl ⟨1, List.mem_singleton.1 hl⟩
  · cases hl
  · obtain ⟨k, s?, -, hpart⟩ := h.lined.isPart_of_mem hbs
    refine (hpart.targets hb hl).imp_right ?_
    rintro ⟨haux, hin⟩
    exact ⟨haux, bs, hbs, hb, hin⟩

/-- No two lines have a block in common. -/
theorem eq_of_label {bs bs' : List Block} (hbs : bs ∈ parts) (hbs' : bs' ∈ parts) {l : Label}
    (hl : l ∈ bs.map Block.label) (hl' : l ∈ bs'.map Block.label) : bs = bs' := by
  obtain ⟨b, hb, rfl⟩ := List.mem_map.1 hl
  obtain ⟨b', hb', hlabel⟩ := List.mem_map.1 hl'
  obtain rfl : b' = b := List.inj_on_of_nodup_map h.labels (h.subset_blocks hbs' hb')
    (h.subset_blocks hbs hb) hlabel
  have hnodup : parts.flatten.Nodup :=
    (List.nodup_cons.1 (List.nodup_cons.1 (h.perm.nodup_iff.1 h.labels.of_map)).2).2
  have hsymm : Std.Symm (List.Disjoint (α := Block)) := ⟨fun _ _ => List.Disjoint.symm⟩
  by_contra hne
  exact (List.nodup_flatten.1 hnodup).2.forall hbs hbs' hne hb hb'

theorem owns {bs : List Block} (hbs : bs ∈ parts) : M.Owns 0 bs := by
  intro x hx id _ hin htarget
  rcases h.targets_cases hx htarget with ⟨k, hk⟩ | ⟨-, bs', hbs', hx', hin'⟩
  · exact absurd hk.symm (((namesOf p).block_ne k).2 id)
  · rwa [h.eq_of_label hbs hbs' hin hin']

theorem closed {b : Block} (hb : b ∈ M.blocks) : b.Closed := by
  rcases h.mem_blocks.1 hb with rfl | rfl | ⟨bs, hbs, hb⟩
  · exact .onward (List.forall_mem_nil _) ⟨nofun, nofun⟩ Label.noConfusion
  · exact .exit
  · obtain ⟨k, s?, -, hpart⟩ := h.lined.isPart_of_mem hbs
    exact hpart.closed b hb

/-- The code refers to globals of the program only. -/
theorem belongs {b : Block} (hb : b ∈ M.blocks) {i : Instr} (hi : i ∈ b.instrs) {g : Text}
    (hg : g ∈ i.globals) : Belongs p (namesOf p).slot (namesOf p).text g := by
  rcases h.mem_blocks.1 hb with rfl | rfl | ⟨bs, hbs, hb⟩
  · cases hi
  · cases hi
  obtain ⟨k, s?, hs, hpart⟩ := h.lined.isPart_of_mem hbs
  obtain ⟨haccesses, hreports⟩ := hpart.globals
  have hgathered : ∀ f : Instr → List Text, g ∈ f i → g ∈ gathered f bs :=
    fun f hf => List.mem_flatMap.2 ⟨b, hb, List.mem_flatMap.2 ⟨i, hi, hf⟩⟩
  have hstmt := stmt?_of_getElem? hs
  by_cases hreport : i.isReport
  · have hmem := hgathered Instr.reports (by rwa [Instr.reports, if_pos hreport])
    rw [hreports] at hmem
    cases s? with
    | none => cases hmem
    | some s => exact belongs_of_reports hstmt hmem
  · have hmem := hgathered Instr.accesses (by rwa [Instr.accesses, if_neg hreport])
    rw [haccesses] at hmem
    cases s? with
    | none => cases hmem
    | some s => exact belongs_of_accesses hstmt hmem

theorem introducing_slot {x : Text} (hx : p.Uses x) :
    M.introducing (valueName ((namesOf p).slot x)) =
        [valueName ((namesOf p).slot x) ++ (" = global double 0.0" : Text)] ∧
      M.introducing (flagName ((namesOf p).slot x)) =
        [flagName ((namesOf p).slot x) ++ (" = global i1 false" : Text)] := by
  have hlt : (namesOf p).slot x < (slotNamesOf M.globals).length := by
    rw [h.globals]
    exact List.idxOf_lt_length_of_mem (mem_slots_namesOf.2 hx)
  exact ⟨Module.introducing_value hlt, Module.introducing_flag hlt⟩

theorem introducing_text {t : Text} (ht : p.Mentions t) :
    M.introducing (textName ((namesOf p).text t)) = [textName ((namesOf p).text t) ++
      (" = constant " : Text) ++ arrayType t ++ " c\"" ++ (t ++ [0]).flatMap escapeByte ++ "\""] := by
  refine Module.introducing_constant ?_
  rw [h.globals]
  exact List.getElem?_idxOf (mem_texts_namesOf.2 ht)

theorem wellFormed : M.WellFormed where
  labels := h.labels
  targets := by
    intro b hb l hl
    rcases h.targets_cases hb hl with ⟨k, rfl⟩ | ⟨-, bs, hbs, -, hin⟩
    · exact h.lines k
    · exact List.map_subset _ (h.subset_blocks hbs) hin
  entry := h.head
  fresh := by
    rintro a ⟨b, hb, -, hl⟩
    rcases h.targets_cases hb hl with ⟨k, hk⟩ | ⟨⟨id, hid⟩, -⟩
    · exact ((namesOf p).block_ne k).1 hk.symm
    · cases hid
  results := by
    obtain ⟨n, hn⟩ := h.lined.results
    rw [(h.perm.flatMap_right Block.results).nodup_iff, List.flatMap_cons, List.flatMap_cons, hn]
    exact List.nodup_range'
  available := by
    intro b hb before r hread
    rcases h.mem_blocks.1 hb with rfl | rfl | ⟨bs, hbs, hb⟩
    · have hnil : M.Grounded .entry 0 [] := .nil
      exact hnil.available hread (List.forall_mem_nil _)
    · have hnil : M.Grounded .exit 0 [] := .nil
      exact hnil.available hread (List.forall_mem_nil _)
    · obtain ⟨k, s?, -, hpart⟩ := h.lined.isPart_of_mem hbs
      exact hpart.available (h.subset_blocks hbs) (h.owns hbs) b hb before r hread
  ends := fun b hb => ⟨_, _, (h.closed hb).ends _⟩
  defined := by
    intro b hb g hg
    rw [globalsIn_blockText] at hg
    obtain ⟨i, hi, hg⟩ := List.mem_flatMap.1 hg
    rcases h.belongs hb hi hg with hfun | ⟨x, hx, rfl | rfl⟩ | ⟨t, ht, rfl⟩
    · exact Module.introducing_function hfun
    · exact ⟨_, (h.introducing_slot hx).1⟩
    · exact ⟨_, (h.introducing_slot hx).2⟩
    · exact ⟨_, h.introducing_text ht⟩

end Assembled

/-! ## Globals and the names they stand for -/

/-- The blocks `bs` are the code of a line: their lines name the globals that the statement on it
calls for, in the order of the statement, and apart from them those of its reports. -/
structure CodeOf (cx : PrintContext) (p : Program) (slot text : Text → Nat) (line : Nat)
    (bs : List Block) : Prop where
  label : (bs.map Block.label).head? = some (.line line)
  accesses : accessesIn cx bs =
    (p.stmt? line).elim [] fun s => accessesOfAction slot text s.action
  reports : reportsIn cx bs =
    (p.stmt? line).elim [] fun s => reportsOfAction text p.labels s.action

/-- **Every variable and every text has globals of its own.** A variable that the program uses has
the pair of globals numbered `slot`, and a text that the program prints or may name in a message
has the constant numbered `text`. -/
structure Module.Assigns (M : Module) (p : Program) (slot text : Text → Nat) : Prop where
  /-- No two variables share a pair. -/
  slots : Set.InjOn slot {x | p.Uses x}
  /-- No two texts share a constant. -/
  texts : Set.InjOn text {t | p.Mentions t}
  /-- A variable has a value that starts at zero, -/
  value : ∀ x, p.Uses x → M.introducing (valueName (slot x)) =
    [valueName (slot x) ++ (" = global double 0.0" : Text)]
  /-- and a flag that starts lowered. -/
  flag : ∀ x, p.Uses x → M.introducing (flagName (slot x)) =
    [flagName (slot x) ++ (" = global i1 false" : Text)]
  /-- A constant holds the bytes of its text and a final zero. -/
  constant : ∀ t, p.Mentions t → ∃ body, unescape body = t ++ [0] ∧
    M.introducing (textName (text t)) =
      [textName (text t) ++ (" = constant " : Text) ++ arrayType t ++ " c\"" ++ body ++ "\""]
  /-- Nothing else is defined. -/
  only : ∀ line ∈ globalLines 0 0 M.globals,
    (∃ x, p.Uses x ∧ (M.introducing (valueName (slot x)) = [line] ∨
      M.introducing (flagName (slot x)) = [line])) ∨
    ∃ t, p.Mentions t ∧ M.introducing (textName (text t)) = [line]
  /-- The code of each line uses the globals of the names that stand on it. Apart from the entry and
  the exit every block is part of the code of one line, numbered in the order of the lines. -/
  code : ∃ (start : Label) (parts : List (List Block)) (n : Nat), M.blocks.Perm
      (⟨.entry, [], .jump start⟩ :: ⟨.exit, [], .ret⟩ :: parts.flatten) ∧
    parts.flatMap (fun bs => (bs.map Block.label).tail) = (List.range n).map Label.aux ∧
    parts.length = p.size ∧
    ∀ k bs, parts[k]? = some bs → CodeOf (PrintContext.ofModule M) p slot text (k + 1) bs

theorem Assembled.assigns {p : Program} {M : Module} {parts : List (List Block)}
    (h : Assembled p M parts) : M.Assigns p (namesOf p).slot (namesOf p).text where
  slots := fun x hx y _ heq => (List.idxOf_inj (mem_slots_namesOf.2 hx)).1 heq
  texts := fun t ht t' _ heq => (List.idxOf_inj (mem_texts_namesOf.2 ht)).1 heq
  value := fun x hx => (h.introducing_slot hx).1
  flag := fun x hx => (h.introducing_slot hx).2
  constant := fun t ht => ⟨_, unescape_escape _, h.introducing_text ht⟩
  only := by
    intro line hline
    have hnodup : (globalsOf p).Nodup := nodup_firstOccurrences _
    have hslots : (namesOf p).slots.Nodup := nodup_slotNamesOf hnodup
    have htexts : (namesOf p).texts.Nodup := nodup_textsOf hnodup
    have hcases := Module.introducing_cases hline
    rw [h.globals] at hcases
    rcases hcases with ⟨n, hn, hintro⟩ | ⟨n, hn, hintro⟩
    · obtain ⟨x, hx, rfl⟩ := exists_idxOf hslots hn
      exact .inl ⟨x, mem_slots_namesOf.1 hx, hintro⟩
    · obtain ⟨t, ht, rfl⟩ := exists_idxOf htexts hn
      exact .inr ⟨t, mem_texts_namesOf.1 ht, hintro⟩
  code := by
    obtain ⟨n, hn⟩ := h.lined.auxs
    rw [← List.range_eq_range'] at hn
    have hlen := h.lined.length
    rw [List.length_map, Array.length_toList] at hlen
    refine ⟨_, parts, n, h.perm, hn, hlen, fun k bs hbs => ?_⟩
    obtain ⟨s?, hs, hpart⟩ := h.lined.isPart hbs
    rw [Nat.add_comm] at hpart
    have hstmt : p.stmt? (k + 1 : Nat) = s? := stmt?_of_getElem? hs
    refine ⟨hpart.label, ?_, ?_⟩
    · rw [accessesIn_eq, hpart.globals.1, hstmt]
    · rw [reportsIn_eq, hpart.globals.2, hstmt]
      rfl

/-- **A loaded program compiles to a well-formed module**, in which every variable and every text
has globals of its own, and the code of a line uses those of the names that stand on it. -/
theorem compile_wellFormed {name src : Text} {p : Program} (hload : Program.load name src = .ok p) :
    ∃ M, compile p = .ok M ∧ M.WellFormed ∧ ∃ slot text, M.Assigns p slot text := by
  obtain ⟨M, parts, hcompile, hM⟩ := compile_assembled fun i s hs => (Program.load_stmt? hload hs).2
  exact ⟨M, hcompile, hM.wellFormed, _, _, hM.assigns⟩

/-- Quoted text used as a number, whose code goes on in a block that nothing reaches, and a jump to
a label that no line carries. -/
theorem compile_wellFormed_quotation :
    ∃ p M, Program.load "quotation" "let b = a + \"x\"\n\nif b > a goto nowhere\n" = .ok p ∧
      compile p = .ok M ∧ M.WellFormed ∧ M.blocks.length = 13 ∧
      ∃ slot text, M.Assigns p slot text ∧ slot "a" ≠ slot "b" ∧ text "b" ≠ text "nowhere" := by
  have hload : Program.load "quotation" "let b = a + \"x\"\n\nif b > a goto nowhere\n" =
      .ok ⟨"quotation", #[⟨none, some ⟨1, .assign "b" (.binary .add (.var "a") (.quotation "\"x\""))⟩⟩,
        ⟨none, none⟩, ⟨none, some ⟨3, .branch (.binary .greater (.var "b") (.var "a")) "nowhere"⟩⟩]⟩ :=
    rfl
  obtain ⟨M, hM, hwell, slot, text, hassigns⟩ := compile_wellFormed hload
  refine ⟨_, M, hload, hM, hwell, ?_, slot, text, hassigns, fun heq => ?_, fun heq => ?_⟩
  · cases hM
    rfl
  · have h := hassigns.slots ⟨1, _, rfl, .inl (by decide)⟩ ⟨1, _, rfl, .inr rfl⟩ heq
    exact absurd h (by decide)
  · have h := hassigns.texts ⟨3, _, rfl, .inl (by decide)⟩ ⟨3, _, rfl, .inr (.inr ⟨rfl, rfl⟩)⟩ heq
    exact absurd h (by decide)

end Code

end TinyLang
