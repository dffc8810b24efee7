import TinyLang.Program
import TinyLang.Proofs.Except

/-!
# What loading gives

A program that has been loaded has properties that a program put together by hand need not have.
Its expressions are `Sound`: every number can be read, every operator is one of the ten, there are
no holes and at most one operator between two terms. Every statement knows the line it stands on.

* `Action.ofWords_cases`: the four forms of an action, with their words.
* `Slot.ofWords_cons`: what a line with words is, with or without a label.
* `Program.load_eq_ok`, `Program.load_slot`: what loading succeeds with, line by line.
* `Program.load_stmt`, `Program.load_stmt?`: the statement on a line of a loaded program is sound
  and knows its line.
-/

namespace TinyLang

/-- A term or quotation: an expression of one word. -/
def Expr.IsTerm : Expr → Prop
  | .var _ => True
  | .number text => ∃ v, Number.read? text = some v
  | .quotation _ => True
  | _ => False

/-- An expression that words can give: a term, or a listed operator between two terms. -/
def Expr.Sound : Expr → Prop
  | .binary op left right => (∀ code, op ≠ .unlisted code) ∧ left.IsTerm ∧ right.IsTerm
  | e => e.IsTerm

/-- An action all of whose expressions are sound. -/
def Action.Sound : Action → Prop
  | .assign _ e => e.Sound
  | .branch c _ => c.Sound
  | .print items => ∀ e, .value e ∈ items → e.Sound
  | .input _ => True

/-! ## Expressions -/

theorem Expr.ofTerm_isTerm {w : Text} {e : Expr} (h : Expr.ofTerm w = .ok e) : e.IsTerm := by
  unfold Expr.ofTerm at h
  split at h
  · cases h
    trivial
  split at h
  · cases h
    trivial
  split at h
  next v hv =>
    cases h
    exact ⟨v, hv⟩
  · cases h

theorem Expr.IsTerm.sound {e : Expr} (h : e.IsTerm) : e.Sound := by
  cases e with
  | binary op left right => exact absurd h id
  | var name => exact h
  | number text => exact h
  | quotation text => exact h
  | hole => exact h

theorem Operator.ofWord?_listed {w : Text} {op : Operator} (h : Operator.ofWord? w = some op) :
    ∀ code, op ≠ .unlisted code := by
  obtain ⟨⟨op', s⟩, hfind, rfl⟩ := Option.map_eq_some_iff.mp h
  have hmem := List.mem_of_find?_eq_some hfind
  rintro code rfl
  simp [Operator.spellings] at hmem

theorem Expr.ofWords_sound {ws : List Text} {e : Expr} (h : Expr.ofWords ws = .ok e) :
    e.Sound := by
  unfold Expr.ofWords at h
  split at h
  · cases h
  · exact (Expr.ofTerm_isTerm h).sound
  next left op right =>
    split at h
    · cases h
    next o ho =>
      obtain ⟨l, hl, h⟩ := bind_eq_ok.mp h
      obtain ⟨r, hr, h⟩ := bind_eq_ok.mp h
      cases h
      exact ⟨Operator.ofWord?_listed ho, Expr.ofTerm_isTerm hl, Expr.ofTerm_isTerm hr⟩
  · cases h

/-! ## Statements -/

theorem PrintItem.ofPiece_value {piece : Text} {e : Expr}
    (h : PrintItem.ofPiece piece = .ok (.value e)) : Expr.ofWords piece.words = .ok e := by
  unfold PrintItem.ofPiece at h
  split at h
  · split at h <;> cases h
  · obtain ⟨e', he, h⟩ := bind_eq_ok.mp h
    cases h
    exact he

/-- **The four forms of an action**, with the words that they come from. -/
theorem Action.ofWords_cases {ws : List Text} {a : Action} (h : Action.ofWords ws = .ok a) :
    (∃ (target : Text) (es : List Text) (e : Expr),
      ws = ("let" : Text) :: target :: ("=" : Text) :: es ∧ Expr.ofWords es = .ok e ∧
        a = .assign target e) ∨
    (∃ (es : List Text) (word label : Text) (e : Expr),
      ws = ("if" : Text) :: (es ++ [word, label]) ∧ Expr.ofWords es = .ok e ∧
        a = .branch e label) ∨
    (∃ (words : List Text) (items : List PrintItem), ws = ("print" : Text) :: words ∧
      ((Text.join " " words).pieces (Text.byte ',')).mapM PrintItem.ofPiece = .ok items ∧
        a = .print items) ∨
    ∃ target : Text, ws = [("input" : Text), target] ∧ a = .input target := by
  unfold Action.ofWords at h
  split at h
  · cases h
  split at h
  next rest hlet =>
    subst hlet
    unfold Action.assignOfWords at h
    split at h
    · split at h
      next heq =>
        subst heq
        obtain ⟨e, he, ⟨⟩⟩ := bind_eq_ok.mp h
        exact .inl ⟨_, _, e, rfl, he, rfl⟩
      · cases h
    · cases h
  split at h
  next rest hlet hif =>
    subst hif
    unfold Action.branchOfWords at h
    split at h
    next label word term more hrev =>
      obtain ⟨e, he, ⟨⟩⟩ := bind_eq_ok.mp h
      refine .inr (.inl ⟨_, word, label, e, ?_, he, rfl⟩)
      have := congrArg List.reverse hrev
      simpa using this
    · cases h
  split at h
  next hprint =>
    subst hprint
    obtain ⟨items, hitems, ⟨⟩⟩ := bind_eq_ok.mp h
    exact .inr (.inr (.inl ⟨_, items, rfl, hitems, rfl⟩))
  split at h
  next hinput =>
    subst hinput
    unfold Action.inputOfWords at h
    split at h
    · cases h
      exact .inr (.inr (.inr ⟨_, rfl, rfl⟩))
    · cases h
  · cases h

theorem Action.ofWords_sound {ws : List Text} {a : Action} (h : Action.ofWords ws = .ok a) :
    a.Sound := by
  obtain ⟨target, es, e, -, he, rfl⟩ | ⟨es, word, label, e, -, he, rfl⟩ |
    ⟨words, items, -, hitems, rfl⟩ | ⟨target, -, rfl⟩ := Action.ofWords_cases h
  · exact Expr.ofWords_sound he
  · exact Expr.ofWords_sound he
  · intro e he
    obtain ⟨piece, -, hpiece⟩ := exists_of_mem_mapM hitems he
    exact Expr.ofWords_sound (PrintItem.ofPiece_value hpiece)
  · trivial

theorem Stmt.ofWords_eq_ok {ws : List Text} {line : Int} {s : Stmt} :
    Stmt.ofWords ws line = .ok s ↔ s.line = line ∧ Action.ofWords ws = .ok s.action := by
  unfold Stmt.ofWords
  cases Action.ofWords ws with
  | error fault => exact ⟨nofun, nofun⟩
  | ok action =>
    obtain ⟨line', action'⟩ := s
    constructor
    · rintro ⟨⟩
      exact ⟨rfl, rfl⟩
    · rintro ⟨rfl, ⟨⟩⟩
      rfl

/-! ## Lines -/

/-- **The slot of a line that is not blank**: a statement behind a label, or a statement. -/
theorem Slot.ofWords_cons {first : Text} {rest : List Text} {line : Int} {slot : Slot} :
    Slot.ofWords (first :: rest) line = .ok slot ↔
      (first.endsWith ":" = true ∧ first.dropLast ≠ [] ∧ rest ≠ [] ∧
        ∃ s, Stmt.ofWords rest line = .ok s ∧ slot = ⟨some first.dropLast, some s⟩) ∨
      (first.endsWith ":" = false ∧
        ∃ s, Stmt.ofWords (first :: rest) line = .ok s ∧ slot = ⟨none, some s⟩) := by
  simp only [Slot.ofWords]
  cases hcolon : first.endsWith ":" with
  | false =>
    rw [if_neg Bool.false_ne_true, bind_eq_ok]
    constructor
    · rintro ⟨s, hs, ⟨⟩⟩
      exact .inr ⟨rfl, s, hs, rfl⟩
    · rintro (⟨⟨⟩, -⟩ | ⟨-, s, hs, rfl⟩)
      exact ⟨s, hs, rfl⟩
  | true =>
    rw [if_pos rfl]
    constructor
    · intro h
      split at h
      · cases h
      next hlabel =>
        split at h
        · cases h
        next hrest =>
          obtain ⟨s, hs, ⟨⟩⟩ := bind_eq_ok.mp h
          exact .inl ⟨rfl, by simpa using hlabel, by simpa using hrest, s, hs, rfl⟩
    · rintro (⟨-, hlabel, hrest, s, hs, rfl⟩ | ⟨⟨⟩, -⟩)
      rw [if_neg (by simpa using hlabel), if_neg (by simpa using hrest), bind_eq_ok]
      exact ⟨s, hs, rfl⟩

/-- A label is not empty and stands before a statement. -/
theorem Slot.ofWords_label {ws : List Text} {line : Int} {slot : Slot} {label : Text}
    (h : Slot.ofWords ws line = .ok slot) (hlabel : slot.label? = some label) :
    label ≠ [] ∧ ∃ s, slot.stmt? = some s := by
  cases ws with
  | nil =>
    cases h
    cases hlabel
  | cons first rest =>
    obtain ⟨-, hne, -, s, -, rfl⟩ | ⟨-, s, -, rfl⟩ := Slot.ofWords_cons.mp h
    · cases hlabel
      exact ⟨hne, s, rfl⟩
    · cases hlabel

theorem Slot.ofWords_stmt {ws : List Text} {line : Int} {slot : Slot} {s : Stmt}
    (h : Slot.ofWords ws line = .ok slot) (hs : slot.stmt? = some s) :
    ∃ ws', ws' ⊆ ws ∧ Stmt.ofWords ws' line = .ok s := by
  cases ws with
  | nil =>
    cases h
    cases hs
  | cons first rest =>
    obtain ⟨-, -, -, s', hs', rfl⟩ | ⟨-, s', hs', rfl⟩ := Slot.ofWords_cons.mp h
    · cases hs
      exact ⟨rest, List.subset_cons_self _ _, hs'⟩
    · cases hs
      exact ⟨first :: rest, List.Subset.refl _, hs'⟩

/-- Lines are numbered one after the other. -/
theorem Text.tokenizeFrom_number {number offset i : Nat} {ps : List Text} {l : Line}
    (h : (Text.tokenizeFrom number offset ps)[i]? = some l) : l.number = number + i := by
  induction ps generalizing number offset i with
  | nil => cases h
  | cons p ps ih =>
    cases i with
    | zero =>
      cases h
      rfl
    | succ i =>
      rw [Text.tokenizeFrom, List.getElem?_cons_succ] at h
      have := ih h
      omega

/-! ## Programs -/

/-- **Loading succeeds** exactly if every line is a slot. -/
theorem Program.load_eq_ok {name src : Text} {p : Program} :
    Program.load name src = .ok p ↔ p.name = name ∧
      List.Forall₂ (fun (l : Line) slot => Slot.ofWords l.words l.number = .ok slot)
        src.tokenize p.slots.toList := by
  unfold Program.load
  rw [bind_eq_ok]
  constructor
  · rintro ⟨slots, hslots, ⟨⟩⟩
    exact ⟨rfl, mapM_eq_ok.mp hslots⟩
  · rintro ⟨rfl, h⟩
    exact ⟨p.slots.toList, mapM_eq_ok.mpr h, rfl⟩

/-- A slot of a loaded program is that of the line of the text with its number. -/
theorem Program.load_slot {name src : Text} {p : Program} (h : Program.load name src = .ok p)
    {i : Nat} {slot : Slot} (hslot : p.slots[i]? = some slot) :
    ∃ l ∈ src.tokenize, l.number = i + 1 ∧ Slot.ofWords l.words (i + 1 : Nat) = .ok slot := by
  obtain ⟨-, hall⟩ := Program.load_eq_ok.mp h
  have hget : p.slots.toList[i]? = some slot := by rw [Array.getElem?_toList, hslot]
  obtain ⟨hlen, rfl⟩ := List.getElem?_eq_some_iff.mp hget
  have hlen' : i < src.tokenize.length := by rw [hall.length_eq]; exact hlen
  have hline := hall.get hlen' hlen
  have hnum : src.tokenize[i].number = i + 1 := by
    have := Text.tokenizeFrom_number (List.getElem?_eq_getElem hlen')
    omega
  refine ⟨src.tokenize[i], List.getElem_mem hlen', hnum, ?_⟩
  rw [← hnum]
  exact hline

/-- **A statement of a loaded program** knows its line, and its expressions are sound. -/
theorem Program.load_stmt {name src : Text} {p : Program} (h : Program.load name src = .ok p)
    {i : Nat} {slot : Slot} {s : Stmt} (hslot : p.slots[i]? = some slot)
    (hs : slot.stmt? = some s) : s.line = (i + 1 : Nat) ∧ s.action.Sound := by
  obtain ⟨l, -, -, hline⟩ := Program.load_slot h hslot
  obtain ⟨ws, -, hws⟩ := Slot.ofWords_stmt hline hs
  obtain ⟨hn, ha⟩ := Stmt.ofWords_eq_ok.mp hws
  exact ⟨hn, Action.ofWords_sound ha⟩

/-! ## The statement on a line -/

section Stmt

variable {p : Program}

/-- What a slot on a line of the program holds. -/
theorem Program.bind_slot?_eq_some {α : Type} {f : Slot → Option α} {line : Int} {x : α} :
    (p.slot? line).bind f = some x ↔ 1 ≤ line ∧ ∃ slot, p.slots[line.toNat - 1]? = some slot ∧
      f slot = some x := by
  unfold Program.slot?
  by_cases h : line < 1
  · simp only [if_pos h, Option.bind_none, reduceCtorEq, false_iff]
    rintro ⟨h', -⟩
    omega
  · rw [if_neg h, Option.bind_eq_some_iff]
    constructor
    · rintro ⟨slot, hslot, hs⟩
      exact ⟨by omega, slot, hslot, hs⟩
    · rintro ⟨-, slot, hslot, hs⟩
      exact ⟨slot, hslot, hs⟩

theorem Program.stmt?_eq_some {line : Int} {s : Stmt} :
    p.stmt? line = some s ↔ 1 ≤ line ∧ ∃ slot, p.slots[line.toNat - 1]? = some slot ∧
      slot.stmt? = some s := Program.bind_slot?_eq_some

theorem Program.label?_eq_some {line : Int} {label : Text} :
    p.label? line = some label ↔ 1 ≤ line ∧ ∃ slot, p.slots[line.toNat - 1]? = some slot ∧
      slot.label? = some label := Program.bind_slot?_eq_some

theorem Program.stmt?_le_size {line : Int} {s : Stmt} (h : p.stmt? line = some s) :
    1 ≤ line ∧ line ≤ p.size := by
  obtain ⟨h1, slot, hslot, -⟩ := Program.stmt?_eq_some.mp h
  have := (Array.getElem?_eq_some_iff.mp hslot).1
  unfold Program.size
  omega

/-- The slots with their lines. -/
theorem Program.mem_zipIdx {n : Nat} {slot : Slot} :
    (slot, n) ∈ p.slots.toList.zipIdx 1 ↔ 1 ≤ n ∧ p.slots[n - 1]? = some slot := by
  rw [List.mk_mem_zipIdx_iff_le_and_getElem?_sub, Array.getElem?_toList]

variable (p) in
theorem Program.pairwise_zipIdx :
    (p.slots.toList.zipIdx 1).Pairwise fun a b => a.2 < b.2 := by
  have hlines : ((p.slots.toList.zipIdx 1).map Prod.snd).Pairwise (· < ·) := by
    rw [List.zipIdx_map_snd]
    exact List.pairwise_lt_range'
  exact List.pairwise_map.mp hlines

/-- The statements of a program are those on its lines. -/
theorem Program.mem_statements {n : Nat} {s : Stmt} :
    (n, s) ∈ p.statements ↔ p.stmt? n = some s := by
  unfold Program.statements
  rw [List.mem_filterMap, Program.stmt?_eq_some]
  constructor
  · rintro ⟨⟨slot, k⟩, hmem, hslot⟩
    obtain ⟨s', hs, ⟨⟩⟩ := Option.map_eq_some_iff.mp hslot
    obtain ⟨hn, hget⟩ := Program.mem_zipIdx.mp hmem
    exact ⟨by omega, slot, hget, hs⟩
  · rintro ⟨hn, slot, hslot, hs⟩
    exact ⟨(slot, n), Program.mem_zipIdx.mpr ⟨by omega, hslot⟩,
      Option.map_eq_some_iff.mpr ⟨s, hs, rfl⟩⟩

/-- The statement on a line of a loaded program knows its line and is sound. -/
theorem Program.load_stmt? {name src : Text} (h : Program.load name src = .ok p) {line : Int}
    {s : Stmt} (hs : p.stmt? line = some s) : s.line = line ∧ s.action.Sound := by
  obtain ⟨hline, slot, hslot, hslots⟩ := Program.stmt?_eq_some.mp hs
  obtain ⟨hnumber, hsound⟩ := Program.load_stmt h hslot hslots
  exact ⟨by omega, hsound⟩

end Stmt

end TinyLang
