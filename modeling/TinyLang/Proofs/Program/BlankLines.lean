import TinyLang.Proofs.Machine.Relocation
import TinyLang.Proofs.Program.Loaded
import TinyLang.Proofs.Text.Lines

/-!
# Blank lines

A blank line between the lines of a program moves the lines behind it by one (`lineAfter`), and
does nothing else.

* `Text.physicalLines_insertLine`: the lines of a text with a line inserted.
* `Slot.forall₂_relocate`: the slots of lines that are numbered in another way.
* `Program.relocates_of_gap`: a program with a blank line inserted has the statements of the old one
  on the lines that their lines have become.
* `blank_lines_only_move_lines`: the headline.
-/

namespace TinyLang

/-! ## Inserting a line into a text -/

namespace Text

/-- The text with a line inserted after line `k`. -/
def insertLine (src : Text) (k : Nat) (line : Text) : Text :=
  join "\n" ((src.pieces (byte '\n')).take k ++ line :: (src.pieces (byte '\n')).drop k)

/-- A text all of whose runes separate words. -/
def IsBlank (t : Text) : Prop := ∀ r ∈ t.runes, r.isSeparator = true

instance : DecidablePred IsBlank := fun t =>
  inferInstanceAs (Decidable (∀ r ∈ t.runes, r.isSeparator = true))

theorem IsBlank.words {t : Text} (h : t.IsBlank) : t.words = [] := by
  have hfold : ∀ rs : List Rune, (∀ r ∈ rs, r.isSeparator = true) →
      rs.foldr addToWords (false, []) = (false, []) := by
    intro rs hrs
    induction rs with
    | nil => rfl
    | cons r rs ih =>
      rw [List.forall_mem_cons] at hrs
      rw [List.foldr_cons, ih hrs.2, addToWords_separator hrs.1]
  unfold Text.words
  rw [hfold t.runes h]

theorem physicalLines_eq {t : Text} {ps : List Text} (h : t.pieces (byte '\n') = ps) :
    t.physicalLines = if ps.getLast? = some [] then ps.dropLast else ps := by
  unfold physicalLines
  rw [h]

theorem pieces_insertLine (src : Text) (k : Nat) {line : Text} (hline : byte '\n' ∉ line) :
    (src.insertLine k line).pieces (byte '\n') =
      (src.pieces (byte '\n')).take k ++ line :: (src.pieces (byte '\n')).drop k := by
  refine pieces_join (by simp) fun t ht => ?_
  rcases List.mem_append.mp ht with ht | ht
  · exact (mem_pieces (List.mem_of_mem_take ht)).1
  · rcases List.mem_cons.mp ht with rfl | ht
    · exact hline
    · exact (mem_pieces (List.mem_of_mem_drop ht)).1

/-- **The lines of a text with a line inserted** are the old ones with that line between them. An
empty line behind the last one counts only if there is a newline behind that too. -/
theorem physicalLines_insertLine {src line : Text} {k : Nat} (hk : k ≤ src.countLines)
    (hline : byte '\n' ∉ line) :
    ∃ before gap after, src.physicalLines = before ++ after ∧ before.length = k ∧
      (src.insertLine k line).physicalLines = before ++ (gap ++ after) ∧
      (gap = [line] ∨ gap = [] ∧ after = []) := by
  rw [physicalLines_eq (pieces_insertLine src k hline)]
  unfold countLines at hk
  by_cases hlast : (src.pieces (byte '\n')).getLast? = some []
  · -- the text ends with a newline, and stays so
    obtain ⟨ls, hls⟩ := List.getLast?_eq_some_iff.mp hlast
    have hsrc : src.physicalLines = ls := by
      rw [physicalLines_eq hls]
      simp
    rw [hsrc] at hk ⊢
    rw [hls, List.take_append_of_le_length hk, List.drop_append_of_le_length hk]
    refine ⟨ls.take k, [line], ls.drop k, (List.take_append_drop k ls).symm,
      List.length_take_of_le hk, ?_, .inl rfl⟩
    rw [← List.cons_append, ← List.append_assoc, List.getLast?_concat, if_pos rfl,
      List.dropLast_concat]
    rfl
  · -- the last line has no newline, so an empty line behind it is none
    have hsrc : src.physicalLines = src.pieces (byte '\n') := by
      rw [physicalLines_eq rfl, if_neg hlast]
    rw [hsrc] at hk ⊢
    have hsplit := List.take_append_drop k (src.pieces (byte '\n'))
    have hlength := List.length_take_of_le hk
    generalize (src.pieces (byte '\n')).take k = before at *
    generalize (src.pieces (byte '\n')).drop k = after at *
    rw [← hsplit, List.getLast?_append] at hlast
    have hgetLast : (before ++ line :: after).getLast? = some (after.getLast?.getD line) := by
      simp [List.getLast?_append, List.getLast?_cons]
    by_cases hempty : after = [] ∧ line = []
    · obtain ⟨rfl, rfl⟩ := hempty
      exact ⟨before, [], [], hsplit.symm, hlength, by simp, .inr ⟨rfl, rfl⟩⟩
    · have hne : after.getLast?.getD line ≠ [] := by
        cases hafter : after.getLast? with
        | none => exact fun hnil => hempty ⟨List.getLast?_eq_none_iff.mp hafter, hnil⟩
        | some x =>
          rintro rfl
          exact hlast (by rw [hafter]; rfl)
      refine ⟨before, [line], after, hsplit.symm, hlength, ?_, .inl rfl⟩
      rw [hgetLast, if_neg (by simpa using hne)]
      rfl

end Text

/-! ## Loading -/

/-- The slot with its statement on another line. -/
def Slot.relocate (f : Int → Int) (s : Slot) : Slot :=
  { s with stmt? := s.stmt?.map (Stmt.relocate f) }

theorem Stmt.ofWords_relocate {ws : List Text} {line : Int} {s : Stmt} (f : Int → Int)
    (h : Stmt.ofWords ws line = .ok s) : Stmt.ofWords ws (f line) = .ok (s.relocate f) := by
  obtain ⟨hline, haction⟩ := Stmt.ofWords_eq_ok.mp h
  exact Stmt.ofWords_eq_ok.mpr ⟨congrArg f hline, haction⟩

theorem Slot.ofWords_relocate {ws : List Text} {line : Int} {slot : Slot} (f : Int → Int)
    (h : Slot.ofWords ws line = .ok slot) : Slot.ofWords ws (f line) = .ok (slot.relocate f) := by
  cases ws with
  | nil =>
    cases h
    rfl
  | cons first rest =>
    rw [Slot.ofWords_cons] at h ⊢
    obtain ⟨hcolon, hlabel, hrest, s, hs, rfl⟩ | ⟨hcolon, s, hs, rfl⟩ := h
    · exact .inl ⟨hcolon, hlabel, hrest, _, Stmt.ofWords_relocate f hs, rfl⟩
    · exact .inr ⟨hcolon, _, Stmt.ofWords_relocate f hs, rfl⟩

theorem Text.length_tokenizeFrom (number offset : Nat) (ts : List Text) :
    (Text.tokenizeFrom number offset ts).length = ts.length := by
  have hwords := congrArg List.length (Text.map_words_tokenizeFrom number offset ts)
  rwa [List.length_map, List.length_map] at hwords

theorem Text.tokenizeFrom_append (number offset : Nat) (ts ts' : List Text) :
    ∃ offset', Text.tokenizeFrom number offset (ts ++ ts') =
      Text.tokenizeFrom number offset ts ++
        Text.tokenizeFrom (number + ts.length) offset' ts' := by
  induction ts generalizing number offset with
  | nil => exact ⟨offset, rfl⟩
  | cons t ts ih =>
    obtain ⟨offset', h⟩ := ih (number + 1) (offset + t.length + 1)
    refine ⟨offset', ?_⟩
    rw [List.cons_append, Text.tokenizeFrom, h, Text.tokenizeFrom, List.length_cons,
      List.cons_append, Nat.add_right_comm number 1, Nat.add_assoc number]

/-- Lines that are numbered in another way have the same slots, but for the lines of the
statements. -/
theorem Slot.forall₂_relocate {ts : List Text} {slots : List Slot} {number offset : Nat}
    (h : List.Forall₂ (fun (l : Line) slot => Slot.ofWords l.words l.number = .ok slot)
      (Text.tokenizeFrom number offset ts) slots) {f : Int → Int} (number' offset' : Nat)
    (hf : ∀ i < ts.length, f (number + i : Nat) = (number' + i : Nat)) :
    List.Forall₂ (fun (l : Line) slot => Slot.ofWords l.words l.number = .ok slot)
      (Text.tokenizeFrom number' offset' ts) (slots.map (Slot.relocate f)) := by
  induction ts generalizing slots number offset number' offset' with
  | nil =>
    cases h
    exact .nil
  | cons t ts ih =>
    rw [Text.tokenizeFrom] at h
    obtain ⟨slot, slots, hslot, hrest, rfl⟩ := List.forall₂_cons_left_iff.mp h
    refine .cons ?_ (ih hrest _ _ fun i hi => ?_)
    · have hfirst := Slot.ofWords_relocate f hslot
      have hnumber : f number = number' := hf 0 (by simp)
      rw [Line.words, Text.words_tokensOf] at hfirst ⊢
      rwa [hnumber] at hfirst
    · have := hf (i + 1) (by simpa using hi)
      rwa [← Nat.add_assoc, ← Nat.add_assoc, Nat.add_right_comm, Nat.add_right_comm number'] at this

/-- The line that a line becomes when one is inserted after line `k`. -/
def lineAfter (k : Nat) (line : Int) : Int := if line ≤ k then line else line + 1

theorem lineAfter_of_le {k : Nat} {line : Int} (h : line ≤ k) : lineAfter k line = line := if_pos h

theorem lineAfter_of_lt {k : Nat} {line : Int} (h : k < line) : lineAfter k line = line + 1 :=
  if_neg (by omega)

/-- The slots of a program with a blank line inserted. -/
theorem Program.load_gap {name src src' : Text} {p : Program} (h : Program.load name src = .ok p)
    {before gap after : List Text} (hsrc : src.physicalLines = before ++ after)
    (hsrc' : src'.physicalLines = before ++ (gap ++ after))
    (hgap : (∃ blank : Text, blank.IsBlank ∧ gap = [blank]) ∨ gap = [] ∧ after = []) :
    ∃ (q : Program) (slots slots' gap' : List Slot), Program.load name src' = .ok q ∧
      slots.length = before.length ∧ p.slots.toList = slots ++ slots' ∧
      q.slots.toList = (slots ++ (gap' ++ slots')).map (Slot.relocate (lineAfter before.length)) ∧
      (gap' = [.blank] ∨ gap' = [] ∧ slots' = []) := by
  obtain ⟨rfl, hall⟩ := Program.load_eq_ok.mp h
  obtain ⟨offset, hoffset⟩ := Text.tokenizeFrom_append 1 0 before after
  obtain ⟨offset', hoffset'⟩ := Text.tokenizeFrom_append 1 0 before (gap ++ after)
  rw [Text.tokenize, hsrc, hoffset] at hall
  obtain ⟨slots, slots', hslots, hbefore, hafter⟩ := exists_append_of_forall₂ hall
  have hlength : slots.length = before.length := by
    rw [← hbefore.length_eq, Text.length_tokenizeFrom]
  have hkept := Slot.forall₂_relocate hbefore (f := lineAfter before.length) 1 0
    fun i hi => lineAfter_of_le (by omega)
  have hload : ∀ gap' : List Slot, List.Forall₂
      (fun (l : Line) slot => Slot.ofWords l.words l.number = .ok slot)
      (Text.tokenizeFrom (1 + before.length) offset' (gap ++ after))
      ((gap' ++ slots').map (Slot.relocate (lineAfter before.length))) →
      Program.load p.name src' = .ok ⟨p.name,
        ((slots ++ (gap' ++ slots')).map (Slot.relocate (lineAfter before.length))).toArray⟩ := by
    intro gap' hgap'
    refine Program.load_eq_ok.mpr ⟨rfl, ?_⟩
    rw [Text.tokenize, hsrc', hoffset', List.map_append]
    exact List.rel_append hkept hgap'
  obtain ⟨blank, hblank, rfl⟩ | ⟨rfl, rfl⟩ := hgap
  · refine ⟨_, slots, slots', [.blank], hload _ (.cons ?_ ?_), hlength, hslots, rfl, .inl rfl⟩
    · rw [Line.words, Text.words_tokensOf, hblank.words]
      rfl
    · exact Slot.forall₂_relocate hafter _ _ fun i hi =>
        (lineAfter_of_lt (by omega)).trans (by omega)
  · cases hafter
    exact ⟨_, slots, [], [], hload [] .nil, hlength, hslots, rfl, .inr ⟨rfl, rfl⟩⟩

/-! ## The statements and labels -/

/-- The labels of slots with their lines, the first of which has a number. -/
def labelsFrom (number : Nat) (slots : List Slot) : List (Text × Nat) :=
  (slots.zipIdx number).filterMap fun (s, line) => s.label?.map fun l => (l, line)

theorem labelsFrom_append (number : Nat) (slots slots' : List Slot) :
    labelsFrom number (slots ++ slots') =
      labelsFrom number slots ++ labelsFrom (number + slots.length) slots' := by
  unfold labelsFrom
  rw [List.zipIdx_append, List.filterMap_append]

theorem labelsFrom_relocate {f : Int → Int} (number number' : Nat) {slots : List Slot}
    (hf : ∀ i < slots.length, f (number + i : Nat) = (number' + i : Nat)) :
    ((labelsFrom number' (slots.map (Slot.relocate f))).map fun (l, line) => (l, (line : Int))) =
      (labelsFrom number slots).map fun (l, line) => (l, f line) := by
  induction slots generalizing number number' with
  | nil => rfl
  | cons s slots ih =>
    have hfirst : f number = number' := hf 0 (by simp)
    have hrest := ih (number + 1) (number' + 1) fun i hi => by
      have := hf (i + 1) (by simpa using hi)
      rwa [Nat.add_right_comm, Nat.add_right_comm number']
    unfold labelsFrom at hrest ⊢
    rw [List.map_cons, List.zipIdx_cons, List.zipIdx_cons, List.filterMap_cons, List.filterMap_cons]
    cases hlabel : s.label? with
    | none => simpa [Slot.relocate, hlabel] using hrest
    | some l => simpa [Slot.relocate, hlabel, hfirst] using hrest

namespace Program

variable {p q : Program} {slots slots' gap : List Slot}

theorem stmt?_eq_bind (p : Program) {line : Int} (h : 1 ≤ line) :
    p.stmt? line = p.slots.toList[line.toNat - 1]?.bind Slot.stmt? := by
  rw [stmt?, slot?, if_neg (by omega), Array.getElem?_toList]

/-- The slots behind the gap are one further. -/
theorem getElem?_gap (hgap : gap = [.blank] ∨ gap = [] ∧ slots' = []) {i : Nat}
    (hi : slots.length ≤ i) : (slots ++ (gap ++ slots'))[i + 1]? = (slots ++ slots')[i]? := by
  rw [List.getElem?_append_right (by omega), List.getElem?_append_right hi]
  obtain rfl | ⟨rfl, rfl⟩ := hgap
  · rw [Nat.sub_add_comm hi, List.singleton_append, List.getElem?_cons_succ]
  · rfl

theorem labelsFrom_gap (hgap : gap = [.blank] ∨ gap = [] ∧ slots' = []) :
    ((labelsFrom 1 ((slots ++ (gap ++ slots')).map (Slot.relocate (lineAfter slots.length)))).map
        fun (l, line) => (l, (line : Int))) =
      (labelsFrom 1 (slots ++ slots')).map fun (l, line) => (l, lineAfter slots.length line) := by
  simp only [List.map_append, labelsFrom_append, List.length_map]
  congr 1
  · exact labelsFrom_relocate 1 1 fun i hi => lineAfter_of_le (by omega)
  · obtain rfl | ⟨rfl, rfl⟩ := hgap
    · exact labelsFrom_relocate (1 + slots.length) (1 + slots.length + 1) fun i hi =>
        (lineAfter_of_lt (by omega)).trans (by omega)
    · rfl

/-- **A program with a blank line inserted** has the old statements on the lines that their lines
have become, and labels mean these lines. -/
theorem relocates_of_gap (hp : p.slots.toList = slots ++ slots')
    (hq : q.slots.toList = (slots ++ (gap ++ slots')).map (Slot.relocate (lineAfter slots.length)))
    (hgap : gap = [.blank] ∨ gap = [] ∧ slots' = []) :
    p.Relocates (lineAfter slots.length) q := by
  refine ⟨fun k n => ?_, fun n => ?_, fun n s hs => ?_, ?_⟩
  · unfold lineAfter
    split <;> split <;> omega
  · by_cases hlow : n < 1
    · rw [lineAfter_of_le (by omega), stmt?_eq_none (.inl hlow), stmt?_eq_none (.inl hlow)]
      rfl
    have hslot : q.slots.toList[(lineAfter slots.length n).toNat - 1]? =
        p.slots.toList[n.toNat - 1]?.map (Slot.relocate (lineAfter slots.length)) := by
      rw [hp, hq, List.getElem?_map]
      by_cases hle : n ≤ slots.length
      · rw [lineAfter_of_le hle, List.getElem?_append_left (by omega),
          List.getElem?_append_left (by omega)]
      · have hidx : (n + 1).toNat - 1 = n.toNat - 1 + 1 := by omega
        rw [lineAfter_of_lt (by omega), hidx, getElem?_gap hgap (by omega)]
    have hpos : 1 ≤ lineAfter slots.length n := by
      unfold lineAfter
      split <;> omega
    rw [stmt?_eq_bind q hpos, stmt?_eq_bind p (by omega), hslot]
    cases p.slots.toList[n.toNat - 1]? <;> rfl
  · by_cases hle : n ≤ slots.length
    · exact ⟨n, (lineAfter_of_le hle).symm⟩
    by_cases hgt : slots.length + 1 < n
    · exact ⟨n - 1, by rw [lineAfter_of_lt (by omega)]; omega⟩
    -- there is no statement on the line between
    have hidx : n.toNat - 1 = slots.length := by omega
    rw [stmt?_eq_bind q (by omega), hq, List.getElem?_map, hidx,
      List.getElem?_append_right (Nat.le_refl _)] at hs
    obtain rfl | ⟨rfl, rfl⟩ := hgap
    · simp [Slot.relocate, Slot.blank] at hs
    · simp at hs
  · unfold labels
    rw [← Table.ofEntries_map, ← Table.ofEntries_map]
    refine congrArg Table.ofEntries ?_
    show (labelsFrom 1 q.slots.toList).map _ = (labelsFrom 1 p.slots.toList).map _
    rw [hp, hq]
    exact labelsFrom_gap hgap

end Program

/-- **Blank lines do not change what a program does.** Insert a line without words after any line of
a text that loads, or before the first. The text still loads, and runs of the two programs on the
same input, with the same settings and the same room for their output, write the same, trace the
same statements, give the variables the same values, count as many statements and leave the same
input. They end in the same way, but for the line that they report: one behind the blank line is one
further. -/
theorem blank_lines_only_move_lines {name src : Text} {p : Program}
    (hload : Program.load name src = .ok p) {k : Nat} (hk : k ≤ src.countLines) (blank : Text)
    (hblank : blank.IsBlank) (hline : Text.byte '\n' ∉ blank) :
    ∃ q, Program.load name (src.insertLine k blank) = .ok q ∧
      ∀ (conf : Settings) (stdin : Text) (room : Option Nat) (fuel : Nat),
        let r := Machine.run conf p fuel 1 (.start p stdin room)
        let r' := Machine.run conf q fuel 1 (.start q stdin room)
        r'.1.output = r.1.output ∧ r'.1.trace = r.1.trace ∧ r'.1.vars = r.1.vars ∧
          r'.1.steps = r.1.steps ∧ r'.1.input = r.1.input ∧
          r'.2 = r.2.relocate fun n => if n ≤ k then n else n + 1 := by
  obtain ⟨before, gap, after, hsrc, rfl, hsrc', hgap⟩ := Text.physicalLines_insertLine hk hline
  obtain ⟨q, slots, slots', gap', hq, hlength, hslots, hslots', hgap'⟩ :=
    Program.load_gap hload hsrc hsrc' (hgap.imp_left fun heq => ⟨blank, hblank, heq⟩)
  rw [← hlength] at hq hslots' ⊢
  have hrelocates := Program.relocates_of_gap hslots hslots' hgap'
  refine ⟨q, hq, fun conf stdin room fuel => ?_⟩
  have hfirst : ∀ n, 1 ≤ n ↔ 1 ≤ lineAfter slots.length n := by
    intro n
    unfold lineAfter
    split <;> omega
  have hrun := Machine.run_relocate hrelocates conf fuel hfirst (.start p stdin room)
  rw [← Machine.start_relocate hrelocates] at hrun
  rw [hrun]
  exact ⟨rfl, rfl, rfl, rfl, rfl, rfl⟩

/-- A blank line inside a loop: a run that stops behind it, and runs that are cut on either side. -/
theorem blank_lines_only_move_lines_loop :
    ∃ src p q, src = ("input n\nagain: let n = n - 1\nif n goto again\nprint lost" : Text) ∧
      Program.load "loop" src = .ok p ∧ Program.load "loop" (src.insertLine 2 "\t ") = .ok q ∧
      (Machine.run {} p 9 1 (.start p "2\n" none)).2 =
        .stopped (.failed ⟨4, .undefinedVariable "lost"⟩) ∧
      (Machine.run {} q 9 1 (.start q "2\n" none)).2 =
        .stopped (.failed ⟨5, .undefinedVariable "lost"⟩) ∧
      (Machine.run { limit := 2 } p 9 1 (.start p "2\n" none)).2 = .cut 2 3 ∧
      (Machine.run { limit := 2 } q 9 1 (.start q "2\n" none)).2 = .cut 2 4 ∧
      (Machine.run { limit := 3 } p 9 1 (.start p "2\n" none)).2 = .cut 3 2 ∧
      (Machine.run { limit := 3 } q 9 1 (.start q "2\n" none)).2 = .cut 3 2 := by
  let p : Program := ⟨"loop", #[⟨none, some ⟨1, .input "n"⟩⟩,
    ⟨some "again", some ⟨2, .assign "n" (.binary .sub (.var "n") (.number "1"))⟩⟩,
    ⟨none, some ⟨3, .branch (.var "n") "again"⟩⟩, ⟨none, some ⟨4, .print [.value (.var "lost")]⟩⟩]⟩
  have hload : Program.load "loop" "input n\nagain: let n = n - 1\nif n goto again\nprint lost" =
      .ok p := rfl
  have hstop : (Machine.run {} p 9 1 (.start p "2\n" none)).2 =
      .stopped (.failed ⟨4, .undefinedVariable "lost"⟩) := by decide +kernel
  have hbehind : (Machine.run { limit := 2 } p 9 1 (.start p "2\n" none)).2 = .cut 2 3 := by
    decide +kernel
  have hahead : (Machine.run { limit := 3 } p 9 1 (.start p "2\n" none)).2 = .cut 3 2 := by
    decide +kernel
  obtain ⟨q, hq, hruns⟩ := blank_lines_only_move_lines hload (show 2 ≤ _ by decide +kernel) "\t "
    (by decide +kernel) (by decide)
  obtain ⟨-, -, -, -, -, hstop'⟩ := hruns {} "2\n" none 9
  obtain ⟨-, -, -, -, -, hbehind'⟩ := hruns { limit := 2 } "2\n" none 9
  obtain ⟨-, -, -, -, -, hahead'⟩ := hruns { limit := 3 } "2\n" none 9
  rw [hstop] at hstop'
  rw [hbehind] at hbehind'
  rw [hahead] at hahead'
  exact ⟨_, p, q, rfl, hload, hq, hstop, hstop', hbehind, hbehind', hahead, hahead'⟩

end TinyLang
