import TinyLang.Proofs.Code.Blocks
import TinyLang.Proofs.Program.Loaded
import Mathlib.Data.List.Nodup

/-!
# The blocks of a compiled program

Which blocks a compiled module has, and that each is found by its label.

* `cutBlocks_labels`: the blocks of one statement are the block of its line and auxiliary blocks
  that are numbered one after the other.
* `Laid`: what the blocks of the first lines of a program are. `Laid.addLine` is the step for one
  line, `Laid.foldlM` the run over all lines.
* `compile_blocks`: compiling a program with sound statements succeeds. No two blocks of the module
  have the same label, and the module has the blocks that the routine of each statement is cut into.
-/

namespace TinyLang.Code

/-! ## Labels -/

theorem putSecond_cons (b first : Block) (others : List Block) :
    putSecond b (first :: others) = first :: b :: others := rfl

/-- The labels of the blocks of straight-line code. -/
theorem cutBlocks_labels (line : Nat) (tail : Tail) (label : Label) (before : List Instr)
    (aux : Nat) (steps : List Step) :
    ∃ n, (cutBlocks line tail label before aux steps).map Block.label =
      label :: (List.range' aux n).map Label.aux := by
  induction steps generalizing label before aux with
  | nil =>
    cases tail with
    | jump target => exact ⟨0, rfl⟩
    | fork flag yes no => exact ⟨0, rfl⟩
    | forkOrFail flag text no => exact ⟨1, rfl⟩
  | cons step rest ih =>
    cases step with
    | plain i => exact ih label (i :: before) aux
    | guarded flag value slot text =>
      obtain ⟨n, hn⟩ := ih (.aux aux) [.loadValue value slot] (aux + 2)
      obtain ⟨more, term, others, hcut⟩ :=
        cutBlocks_head line tail (.aux aux) [.loadValue value slot] (aux + 2) rest
      rw [hcut, List.map_cons, List.cons.injEq] at hn
      refine ⟨n + 2, ?_⟩
      rw [cutBlocks, hcut, putSecond_cons, List.map_cons, List.map_cons, List.map_cons, hn.2,
        List.range'_succ, List.range'_succ]
      rfl
    | abort =>
      obtain ⟨n, hn⟩ := ih (.aux aux) [] (aux + 1)
      refine ⟨n + 1, ?_⟩
      rw [cutBlocks, List.map_cons, hn, List.range'_succ]
      rfl

/-- With distinct labels a block is found by its label. -/
theorem find?_label {bs : List Block} (hnd : (bs.map Block.label).Nodup) {b : Block}
    (hb : b ∈ bs) : bs.find? (fun x => x.label == b.label) = some b := by
  induction bs with
  | nil => exact absurd hb List.not_mem_nil
  | cons x rest ih =>
    rw [List.map_cons, List.nodup_cons] at hnd
    rcases List.mem_cons.mp hb with rfl | hb
    · rw [List.find?_cons_of_pos (by simp)]
    · have hne : x.label ≠ b.label := fun h => hnd.1 (h ▸ List.mem_map_of_mem hb)
      rw [List.find?_cons_of_neg (by simpa using hne)]
      exact ih hnd.2 hb

/-! ## Line after line -/

/-- The blocks of the first lines of a program, given what stands on them. -/
structure Laid (ns : Names) (done : List (Option Stmt)) (lay : Layout) : Prop where
  /-- One block for each line, in order. -/
  lines : lay.lines.reverse.map Block.label = (List.range' 1 done.length).map Label.line
  /-- The other blocks are numbered in order. -/
  others : lay.others.reverse.map Block.label = (List.range lay.aux).map Label.aux
  /-- A blank line goes on at the next one. -/
  blank : ∀ i, done[i]? = some none →
    ⟨.line (i + 1), [], .jump (ns.block (i + 2))⟩ ∈ lay.lines
  /-- A statement has the blocks of its routine. -/
  code : ∀ i s, done[i]? = some (some s) → ∃ reg aux r, routineOf ns (i + 1) reg s.action = .ok r ∧
    ∀ b ∈ cutBlocks (i + 1) r.tail (.line (i + 1)) [] aux r.steps, b ∈ lay.lines ∨ b ∈ lay.others

theorem Laid.nil (ns : Names) : Laid ns [] ⟨[], [], 0, 0⟩ where
  lines := rfl
  others := rfl
  blank := nofun
  code := nofun

theorem getElem?_snoc {α : Type} {xs : List α} {x y : α} {i : Nat}
    (h : (xs ++ [x])[i]? = some y) : xs[i]? = some y ∨ i = xs.length ∧ y = x := by
  rcases Nat.lt_or_ge i xs.length with hlt | hge
  · exact .inl (by rwa [List.getElem?_append_left hlt] at h)
  · rw [List.getElem?_append_right hge, List.getElem?_singleton] at h
    split at h
    · cases h
      exact .inr ⟨by omega, rfl⟩
    · cases h

/-- The blocks of a new line are put in front of those that are there. -/
theorem Laid.extend {ns : Names} {done : List (Option Stmt)} {lay : Layout} (h : Laid ns done lay)
    {s? : Option Stmt} {first : Block} {others : List Block} {n reg : Nat}
    (hfirst : first.label = .line (done.length + 1))
    (hothers : others.map Block.label = (List.range' lay.aux n).map Label.aux)
    (hblank : s? = none → first = ⟨.line (done.length + 1), [], .jump (ns.block (done.length + 2))⟩)
    (hcode : ∀ s, s? = some s → ∃ reg aux r,
      routineOf ns (done.length + 1) reg s.action = .ok r ∧
        cutBlocks (done.length + 1) r.tail (.line (done.length + 1)) [] aux r.steps =
          first :: others) :
    Laid ns (done ++ [s?])
      ⟨first :: lay.lines, others.reverse ++ lay.others, reg, lay.aux + n⟩ where
  lines := by
    rw [List.reverse_cons, List.map_append, h.lines, List.length_append, List.length_singleton,
      List.range'_1_concat, List.map_append, List.map_singleton, hfirst, Nat.add_comm 1]
    rfl
  others := by
    show _ = (List.range (lay.aux + n)).map Label.aux
    rw [List.reverse_append, List.reverse_reverse, List.map_append, h.others, hothers,
      ← List.map_append, List.range_add, List.range'_eq_map_range]
  blank := by
    intro i hi
    rcases getElem?_snoc hi with hi | ⟨rfl, hs⟩
    · exact List.mem_cons_of_mem _ (h.blank i hi)
    · rw [← hblank hs.symm]
      exact List.mem_cons_self
  code := by
    intro i s hi
    rcases getElem?_snoc hi with hi | ⟨rfl, hs⟩
    · obtain ⟨reg, aux, r, hr, hb⟩ := h.code i s hi
      refine ⟨reg, aux, r, hr, fun b hmem => ?_⟩
      rcases hb b hmem with hb | hb
      · exact .inl (List.mem_cons_of_mem _ hb)
      · exact .inr (List.mem_append_right _ hb)
    · obtain ⟨reg, aux, r, hr, hcut⟩ := hcode s hs.symm
      refine ⟨reg, aux, r, hr, fun b hmem => ?_⟩
      rw [hcut] at hmem
      rcases List.mem_cons.mp hmem with rfl | hmem
      · exact .inl List.mem_cons_self
      · exact .inr (List.mem_append_left _ (List.mem_reverse.mpr hmem))

/-- **One line.** If the statement on it has a routine, its blocks can be added. -/
theorem Laid.addLine {ns : Names} {done : List (Option Stmt)} {lay : Layout}
    (h : Laid ns done lay) {s? : Option Stmt}
    (hroutine : ∀ s, s? = some s → ∀ reg, ∃ r,
      routineOf ns (done.length + 1) reg s.action = .ok r) :
    ∃ lay', lay.addLine ns (done.length + 1) s? = .ok lay' ∧ Laid ns (done ++ [s?]) lay' := by
  cases s? with
  | none =>
    have hempty : ([] : List Block).map Block.label = (List.range' lay.aux 0).map Label.aux := rfl
    exact ⟨_, rfl, h.extend rfl hempty (fun _ => rfl) nofun⟩
  | some s =>
    obtain ⟨r, hr⟩ := hroutine s rfl lay.reg
    obtain ⟨more, term, others, hcut⟩ :=
      cutBlocks_head (done.length + 1) r.tail (.line (done.length + 1)) [] lay.aux r.steps
    obtain ⟨n, hn⟩ :=
      cutBlocks_labels (done.length + 1) r.tail (.line (done.length + 1)) [] lay.aux r.steps
    rw [hcut, List.map_cons, List.cons.injEq] at hn
    have hlen : others.length = n := by
      have := congrArg List.length hn.2
      simpa using this
    refine ⟨⟨⟨.line (done.length + 1), more, term⟩ :: lay.lines, others.reverse ++ lay.others,
      r.next, lay.aux + n⟩, ?_, ?_⟩
    · simp only [Layout.addLine, hr, hcut, hlen, List.reverse_nil, List.nil_append]
    · exact h.extend rfl hn.2 nofun (by rintro _ ⟨⟩; exact ⟨lay.reg, lay.aux, r, hr, hcut⟩)

/-- **All lines.** -/
theorem Laid.foldlM {ns : Names} (rest : List Slot) {done : List (Option Stmt)} {lay : Layout}
    (h : Laid ns done lay)
    (hroutine : ∀ slot ∈ rest, ∀ s, slot.stmt? = some s → ∀ line reg, ∃ r,
      routineOf ns line reg s.action = .ok r) :
    ∃ lay', (rest.zipIdx (done.length + 1)).foldlM
        (fun lay (slot, line) => Layout.addLine ns lay line slot.stmt?) lay = .ok lay' ∧
      Laid ns (done ++ rest.map Slot.stmt?) lay' := by
  induction rest generalizing done lay with
  | nil => exact ⟨lay, rfl, by rwa [List.map_nil, List.append_nil]⟩
  | cons slot rest ih =>
    obtain ⟨lay₁, hadd, h₁⟩ := h.addLine
      fun s hs reg => hroutine slot List.mem_cons_self s hs (done.length + 1) reg
    obtain ⟨lay₂, hfold, h₂⟩ := ih h₁ fun x hx => hroutine x (List.mem_cons_of_mem _ hx)
    rw [List.length_append, List.length_singleton] at hfold
    refine ⟨lay₂, ?_, ?_⟩
    · rw [List.zipIdx_cons, List.foldlM_cons]
      exact bind_eq_ok.mpr ⟨lay₁, hadd, hfold⟩
    · rwa [List.append_assoc, List.singleton_append] at h₂

/-! ## Every sound statement has a routine -/

theorem fragmentOf_term (ns : Names) (reg : Nat) {e : Expr} (h : e.IsTerm) :
    ∃ f, fragmentOf ns reg e = .ok f := by
  cases e with
  | var name => exact ⟨_, rfl⟩
  | number text =>
    obtain ⟨v, hv⟩ := h
    exact ⟨⟨[], .const v, reg⟩, by rw [fragmentOf, hv]⟩
  | quotation text => exact ⟨_, rfl⟩
  | binary op left right => exact absurd h id
  | hole => exact absurd h id

theorem fragmentOf_sound (ns : Names) (reg : Nat) {e : Expr} (h : e.Sound) :
    ∃ f, fragmentOf ns reg e = .ok f := by
  cases e with
  | binary op left right =>
    obtain ⟨hop, hleft, hright⟩ := h
    obtain ⟨l, hl⟩ := fragmentOf_term ns reg hleft
    obtain ⟨r, hr⟩ := fragmentOf_term ns l.next hright
    rw [fragmentOf, hl]
    show ∃ f, (fragmentOf ns l.next right >>= _) = .ok f
    rw [hr]
    cases op with
    | unlisted code => exact absurd rfl (hop code)
    | _ => exact ⟨_, rfl⟩
  | var name => exact fragmentOf_term ns reg h
  | number text => exact fragmentOf_term ns reg h
  | quotation text => exact fragmentOf_term ns reg h
  | hole => exact fragmentOf_term ns reg h

theorem printSteps_sound (ns : Names) (reg : Nat) {items : List PrintItem}
    (h : ∀ e, .value e ∈ items → e.Sound) : ∃ r, printSteps ns reg items = .ok r := by
  induction items generalizing reg with
  | nil => exact ⟨_, rfl⟩
  | cons item items ih =>
    have hrest : ∀ e, .value e ∈ items → e.Sound := fun e he => h e (List.mem_cons_of_mem _ he)
    cases item with
    | literal t =>
      obtain ⟨⟨steps, next⟩, hr⟩ := ih reg hrest
      exact ⟨_, by rw [printSteps, hr]; rfl⟩
    | value e =>
      obtain ⟨f, hf⟩ := fragmentOf_sound ns reg (h e List.mem_cons_self)
      obtain ⟨⟨steps, next⟩, hr⟩ := ih f.next hrest
      refine ⟨(f.steps ++ .plain (.printNumber f.value) :: steps, next), ?_⟩
      rw [printSteps, bind_eq_ok]
      exact ⟨f, hf, bind_eq_ok.mpr ⟨_, hr, rfl⟩⟩

theorem routineOf_sound (ns : Names) (line reg : Nat) {a : Action} (h : a.Sound) :
    ∃ r, routineOf ns line reg a = .ok r := by
  cases a with
  | assign target e =>
    obtain ⟨f, hf⟩ := fragmentOf_sound ns reg h
    exact ⟨_, by rw [routineOf, hf]; rfl⟩
  | branch c label =>
    obtain ⟨f, hf⟩ := fragmentOf_sound ns reg h
    exact ⟨_, by rw [routineOf, hf]; rfl⟩
  | print items =>
    obtain ⟨⟨steps, next⟩, hr⟩ := printSteps_sound ns reg h
    exact ⟨_, by rw [routineOf, hr]; rfl⟩
  | input target => exact ⟨_, rfl⟩

/-! ## The module -/

/-- What compiling the statements of a program looks up. -/
def namesOf (p : Program) : Names :=
  ⟨slotNamesOf (globalsOf p), textsOf (globalsOf p), p.labels, p.size⟩

/-- The blocks that the module of a program has, by their labels. -/
structure Compiled (p : Program) (M : Module) : Prop where
  globals : M.globals = globalsOf p
  entry : M.block? .entry = some ⟨.entry, [], .jump ((namesOf p).block 1)⟩
  exit : M.block? .exit = some ⟨.exit, [], .ret⟩
  blank : ∀ i < p.size, p.stmt? (i + 1 : Nat) = none →
    M.block? (.line (i + 1)) = some ⟨.line (i + 1), [], .jump ((namesOf p).block (i + 2))⟩
  code : ∀ (i : Nat) s, p.stmt? (i + 1 : Nat) = some s → ∃ reg aux r,
    routineOf (namesOf p) (i + 1) reg s.action = .ok r ∧
      ∀ b ∈ cutBlocks (i + 1) r.tail (.line (i + 1)) [] aux r.steps, M.block? b.label = some b

/-- The lines that `Laid` counts from zero are those of the program. -/
theorem getElem?_stmts {p : Program} {i : Nat} (hi : i < p.size) :
    (p.slots.toList.map Slot.stmt?)[i]? = some (p.stmt? (i + 1 : Nat)) := by
  have hget : p.slots[i]? = some p.slots[i] := Array.getElem?_eq_getElem hi
  have hline : ¬ ((i + 1 : Nat) : Int) < 1 := by omega
  unfold Program.stmt? Program.slot?
  rw [if_neg hline, Int.toNat_natCast, Nat.add_sub_cancel, hget, List.getElem?_map,
    Array.getElem?_toList, hget]
  rfl

/-- The labels of the blocks of a module are distinct. -/
theorem Laid.nodup {ns : Names} {done : List (Option Stmt)} {lay : Layout} (h : Laid ns done lay)
    (entry exit : Block) (hentry : entry.label = .entry) (hexit : exit.label = .exit) :
    ((entry :: lay.lines.reverse ++ exit :: lay.others.reverse).map Block.label).Nodup := by
  have hlines : ((List.range' 1 done.length).map Label.line).Nodup :=
    List.Nodup.map (fun _ _ heq => by injection heq) List.nodup_range'
  have hothers : ((List.range lay.aux).map Label.aux).Nodup :=
    List.Nodup.map (fun _ _ heq => by injection heq) List.nodup_range
  rw [List.map_append, List.map_cons, List.map_cons, h.lines, h.others, hentry, hexit]
  rw [List.cons_append, List.nodup_cons, List.nodup_append, List.nodup_cons]
  refine ⟨by simp, hlines, ⟨by simp, hothers⟩, ?_⟩
  rintro _ hline _ hother rfl
  obtain ⟨n, -, rfl⟩ := List.mem_map.mp hline
  simp at hother

/-- The module with the blocks of a layout. -/
def Layout.toModule (p : Program) (lay : Layout) : Module :=
  ⟨p.name, globalsOf p, ⟨.entry, [], .jump ((namesOf p).block 1)⟩ :: lay.lines.reverse ++
    ⟨.exit, [], .ret⟩ :: lay.others.reverse⟩

/-- The blocks of a program with sound statements are laid out line after line. -/
theorem compile_laid {p : Program}
    (hsound : ∀ (i : Nat) s, p.stmt? (i + 1 : Nat) = some s → s.action.Sound) :
    ∃ lay : Layout, (p.slots.toList.zipIdx 1).foldlM
        (fun lay (slot, line) => Layout.addLine (namesOf p) lay line slot.stmt?) ⟨[], [], 0, 0⟩ =
          .ok lay ∧
      Laid (namesOf p) (p.slots.toList.map Slot.stmt?) lay ∧ compile p = .ok (lay.toModule p) := by
  have hroutine : ∀ slot ∈ p.slots.toList, ∀ s, slot.stmt? = some s → ∀ line reg, ∃ r,
      routineOf (namesOf p) line reg s.action = .ok r := by
    intro slot hslot s hs line reg
    obtain ⟨i, hi⟩ := List.mem_iff_getElem?.mp hslot
    have hlt : i < p.size := (List.getElem?_eq_some_iff.mp hi).1
    have hstmt := getElem?_stmts hlt
    rw [List.getElem?_map, hi, Option.map_some, Option.some.injEq] at hstmt
    exact routineOf_sound _ line reg (hsound i s (hstmt ▸ hs))
  obtain ⟨lay, hfold, hlaid⟩ := (Laid.nil (namesOf p)).foldlM p.slots.toList hroutine
  exact ⟨lay, hfold, hlaid, bind_eq_ok.mpr ⟨lay, hfold, rfl⟩⟩

/-- **Compiling a program with sound statements** succeeds, and every block of the module is found
by its label. -/
theorem compile_blocks {p : Program}
    (hsound : ∀ (i : Nat) s, p.stmt? (i + 1 : Nat) = some s → s.action.Sound) :
    ∃ M, compile p = .ok M ∧ Compiled p M := by
  obtain ⟨lay, -, hlaid, hcompile⟩ := compile_laid hsound
  have hblock : ∀ b ∈ (lay.toModule p).blocks, (lay.toModule p).block? b.label = some b :=
    fun b hb => find?_label (hlaid.nodup _ _ rfl rfl) hb
  refine ⟨lay.toModule p, hcompile, ?_⟩
  exact
    { globals := rfl
      entry := hblock ⟨.entry, [], .jump ((namesOf p).block 1)⟩ (by simp [Layout.toModule])
      exit := hblock ⟨.exit, [], .ret⟩ (by simp [Layout.toModule])
      blank := fun i hi hs => hblock ⟨.line (i + 1), [], .jump ((namesOf p).block (i + 2))⟩
        (by simp [Layout.toModule, hlaid.blank i (by rw [getElem?_stmts hi, hs])])
      code := by
        intro i s hs
        have hi : i < p.size := by
          have := (Program.stmt?_le_size hs).2
          omega
        obtain ⟨reg, aux, r, hr, hb⟩ := hlaid.code i s (by rw [getElem?_stmts hi, hs])
        refine ⟨reg, aux, r, hr, fun b hmem => hblock b ?_⟩
        rcases hb b hmem with hb | hb <;> simp [Layout.toModule, hb] }

end TinyLang.Code
