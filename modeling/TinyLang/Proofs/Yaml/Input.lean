import TinyLang.Yaml.Input
import TinyLang.Proofs.Except
import TinyLang.Proofs.Yaml.Character

/-!
# Characters ahead

`Input.Shows` says what a reader has before it, whatever pieces have been read so far: a stream that
goes on with some characters, of which at least a number have been decoded. Asking for characters
(`Shows.need`) only raises that number, and passing one takes it off the head (`Shows.skip`).
-/

namespace TinyLang.Yaml

/-- The first of the characters to come. -/
def nextOf (cs : List Char) : Char := cs.headD endChar

@[simp]
theorem nextOf_nil : nextOf [] = endChar := rfl

@[simp]
theorem nextOf_cons (c : Char) (cs : List Char) : nextOf (c :: cs) = c := rfl

/-- A character that is not passed on the way to a token. -/
def StartsToken (c : Char) : Prop := c ≠ ' ' ∧ c ≠ '\t' ∧ c ≠ '#' ∧ isBreak c = false

namespace Scan

theorem fuel_run (i : Input) : Scan.fuel.run i = .ok (i.size + 2, i) := rfl

theorem head_run (i : Input) : Scan.head.run i = .ok (i.head, i) := rfl

theorem look_run (n : Nat) (i : Input) : (Scan.look n).run i = .ok (i.get n, i) := rfl

theorem mark_run (i : Input) : Scan.mark.run i = .ok (i.mark, i) := rfl

theorem skip_run (i : Input) : Scan.skip.run i = .ok ((), i.skip) := rfl

end Scan

/-- A character that may stand in a stream wherever a character may. -/
def Clean (c : Char) : Prop := isAllowed c.toNat = true ∧ c ≠ '\ufeff'

namespace Input

/-- The stream, which is of a size in bytes, goes on with the characters `cs` at the mark `m`, and the
first `n` of them, or all if there are fewer, stand ahead. -/
structure Shows (i : Input) (size n : Nat) (m : Mark) (cs : List Char) : Prop where
  mark : i.mark = m
  encoding : i.encoding = .utf8
  overdue : i.overdue = none
  first : i.first ≠ '\ufeff'
  clean : ∀ c ∈ cs, Clean c
  total : i.size = size
  fits : cs.length ≤ size
  /-- What has been decoded and what has not. Behind the last character there may be a padding. -/
  ahead : ∃ seen later padding, cs = seen ++ later ∧
    i.ahead = seen ++ List.replicate padding endChar ∧ encodeChars later = i.left ++ i.source ∧
    (later = [] ∨ n ≤ seen.length ∧ padding = 0)

variable {i : Input} {size n : Nat} {m : Mark} {cs : List Char}

namespace Shows

theorem size_le (h : i.Shows size n m cs) : cs.length ≤ i.size := h.total ▸ h.fits

theorem mono {k : Nat} (h : i.Shows size n m cs) (hk : k ≤ n) : i.Shows size k m cs := by
  obtain ⟨seen, later, padding, hcs, hahead, hbytes, hn⟩ := h.ahead
  exact { h with ahead :=
    ⟨seen, later, padding, hcs, hahead, hbytes, hn.imp_right fun hn => ⟨by omega, hn.2⟩⟩ }

/-- What stands ahead is what is shown. -/
theorem get_eq {k : Nat} (h : i.Shows size n m cs) (hk : k < n) : i.get k = cs.getD k endChar := by
  obtain ⟨seen, later, padding, rfl, hahead, -, hn⟩ := h.ahead
  rw [Input.get, hahead]
  simp only [List.getD_eq_getElem?_getD]
  by_cases hseen : k < seen.length
  · rw [List.getElem?_append_left hseen, List.getElem?_append_left hseen]
  · obtain rfl : later = [] := by
      rcases hn with hn | ⟨hn, -⟩
      · exact hn
      · omega
    rw [List.getElem?_append_right (by omega), List.append_nil,
      List.getElem?_eq_none (by omega : seen.length ≤ k), List.getElem?_replicate]
    split <;> rfl

theorem head_eq (h : i.Shows size (n + 1) m cs) : i.head = nextOf cs := by
  have := h.get_eq (Nat.succ_pos n)
  cases cs <;> simpa [Input.get, Input.head, List.head?_eq_getElem?] using this

theorem head_ne (h : i.Shows size 0 m cs) : i.head ≠ '\ufeff' := by
  obtain ⟨seen, later, padding, rfl, hahead, -, -⟩ := h.ahead
  rw [Input.head, hahead]
  cases seen with
  | nil => cases padding <;> simp [endChar, List.replicate_succ]
  | cons c seen => simpa using (h.clean c (by simp)).2

theorem take_ahead (h : i.Shows size n m cs) (hn : n ≤ cs.length) : i.ahead.take n = cs.take n := by
  obtain ⟨seen, later, padding, rfl, hahead, -, hlater⟩ := h.ahead
  have hseen : n ≤ seen.length := by
    rcases hlater with rfl | hlater
    · simpa using hn
    · exact hlater.1
  rw [hahead, List.take_append_of_le_length hseen, List.take_append_of_le_length hseen]

/-! ## Asking for characters -/

/-- Reading a piece shows the same characters. -/
theorem takePiece (h : i.Shows size 0 m cs) (bytes source : Text)
    (hsource : i.source = bytes ++ source) :
    ∃ j fault, i.takePiece bytes source = (j, fault) ∧ j.Shows size 0 m cs ∧ j.source = source ∧
      fault.all EncodingFault.isTruncation = true ∧ (source = [] → fault = none ∧ j.left = []) := by
  obtain ⟨seen, later, padding, rfl, hahead, hbytes, hpadding⟩ := h.ahead
  have hallowed : ∀ c ∈ later, isAllowed c.toNat = true := fun c hc => (h.clean c (by simp [hc])).1
  rw [hsource, ← List.append_assoc] at hbytes
  obtain ⟨before, after, rest, fault, rfl, hrun, hrest, hfault, hend⟩ :=
    decodeRun_encodeChars hallowed hbytes []
  refine ⟨(i.takePiece bytes source).1, fault, ?_, ?_, rfl, hfault, fun hnil => ?_⟩
  · simp [Input.takePiece, h.encoding, hrun]
  · refine { mark := h.mark, encoding := h.encoding, overdue := h.overdue, first := h.first
             clean := h.clean, total := h.total, fits := h.fits, ahead := ?_ }
    refine ⟨seen ++ before, after, padding, by simp, ?_, ?_, ?_⟩
    · rcases hpadding with hnil | ⟨-, rfl⟩
      · obtain ⟨rfl, rfl⟩ := List.append_eq_nil_iff.mp hnil
        simp [Input.takePiece, h.encoding, hrun, hahead]
      · simp [Input.takePiece, h.encoding, hrun, hahead]
    · simpa [Input.takePiece, h.encoding, hrun] using hrest
    · exact hpadding.imp (fun hnil => (List.append_eq_nil_iff.mp hnil).2) fun hpadding =>
        ⟨Nat.zero_le _, hpadding.2⟩
  · obtain ⟨rfl, rfl⟩ := hend hnil
    refine ⟨rfl, ?_⟩
    have : [] = rest := by simpa [hnil] using hrest
    simp [Input.takePiece, h.encoding, hrun, this]

theorem of_has (h : i.Shows size 0 m cs) (hhas : i.has n = true) : i.Shows size n m cs := by
  obtain ⟨seen, later, padding, hcs, hahead, hbytes, hpadding⟩ := h.ahead
  refine { h with ahead := ⟨seen, later, padding, hcs, hahead, hbytes, ?_⟩ }
  refine hpadding.imp_right fun hpadding => ⟨?_, hpadding.2⟩
  cases n with
  | zero => exact Nat.zero_le _
  | succ n =>
    rw [hpadding.2] at hahead
    simp [has, hahead] at hhas
    omega

theorem readPieces (h : i.Shows size 0 m cs) (n : Nat) :
    ∃ j, i.readPieces n = (j, none) ∧ j.Shows size n m cs := by
  fun_induction Input.readPieces n i with
  | case1 i hhas => exact ⟨i, rfl, h.of_has hhas⟩
  | case2 i hhas hsource j hpiece =>
    obtain ⟨j', fault, hpiece', hj, hsource', -, hend⟩ := h.takePiece [] [] hsource
    obtain ⟨rfl, rfl⟩ := Prod.mk.inj (hpiece.symm.trans hpiece')
    obtain ⟨seen, later, padding, hcs, hahead, hbytes, -⟩ := hj.ahead
    obtain rfl : later = [] := encodeChars_eq_nil (by rw [hbytes, (hend rfl).2, hsource']; rfl)
    refine ⟨_, rfl, { hj with ahead := ⟨seen, [], padding + 1, hcs, ?_, hbytes, .inl rfl⟩ }⟩
    rw [hahead, List.append_assoc, ← List.replicate_succ']
  | case3 i hhas hsource hne =>
    obtain ⟨j, fault, hpiece, -, -, -, hend⟩ := h.takePiece [] [] hsource
    obtain ⟨rfl, -⟩ := hend rfl
    exact absurd hpiece (hne j)
  | case4 i hhas b rest hsource size found hfound ih =>
    obtain ⟨j, fault, hpiece, hj, -⟩ := h.takePiece (b :: rest.take size)
      (rest.drop size) (by rw [hsource, List.cons_append, List.take_append_drop])
    obtain rfl : found.1 = j := congrArg Prod.fst hpiece
    exact ih hj
  | case5 i hhas b rest hsource size found hfound =>
    obtain ⟨j, fault, hpiece, -, -, hfault, -⟩ := h.takePiece (b :: rest.take size)
      (rest.drop size) (by rw [hsource, List.cons_append, List.take_append_drop])
    rw [show found.2 = fault from congrArg Prod.snd hpiece] at hfound
    exact absurd hfault hfound

theorem fill (h : i.Shows size 0 m cs) (n : Nat) : ∃ j, i.fill n = (j, none) ∧
    j.Shows size n m cs := by
  unfold Input.fill
  by_cases hhas : i.has n = true
  · exact ⟨i, by rw [if_pos hhas], h.of_has hhas⟩
  · obtain ⟨j, hread, hj⟩ := h.readPieces n
    refine ⟨{ j with first := j.head }, by rw [if_neg hhas, hread], ?_⟩
    exact { hj with first := (hj.mono (Nat.zero_le n)).head_ne }

/-- **Characters can be asked for.** -/
theorem need (h : i.Shows size 0 m cs) (n : Nat) :
    ∃ j, (Scan.need n).run i = .ok ((), j) ∧ j.Shows size n m cs := by
  obtain ⟨j, hfill, hj⟩ := h.fill n
  refine ⟨j, ?_, hj⟩
  rw [Scan.need, run_get_bind, hfill]
  rfl

theorem sees (h : i.Shows size 0 m cs) (n : Nat) :
    ∃ j, (Scan.sees n).run i = .ok (true, j) ∧ j.Shows size n m cs := by
  obtain ⟨j, hfill, hj⟩ := h.fill n
  refine ⟨j, ?_, hj⟩
  rw [Scan.sees, run_get_bind, hfill]
  rfl

/-! ## Passing characters -/

theorem skip {c : Char} (h : i.Shows size (n + 1) m (c :: cs)) : i.skip.Shows size n m.right cs := by
  obtain ⟨seen, later, padding, hcs, hahead, hbytes, hn⟩ := h.ahead
  refine { mark := by rw [← h.mark]; rfl, encoding := h.encoding, overdue := h.overdue
           first := h.first, clean := fun d hd => h.clean d (by simp [hd]), total := h.total
           fits := Nat.le_of_succ_le h.fits, ahead := ?_ }
  cases seen with
  | nil =>
    rcases hn with rfl | hn
    · cases hcs
    · simp at hn
  | cons d seen =>
    obtain ⟨rfl, htail⟩ : c = d ∧ cs = seen ++ later := List.cons.inj hcs
    refine ⟨seen, later, padding, htail, ?_, hbytes, hn.imp_right fun hn => ⟨?_, hn.2⟩⟩
    · rw [Input.skip, hahead]
      rfl
    · simpa using hn.1

theorem takeBreak (h : i.Shows size 0 m ('\n' :: cs)) :
    ∃ j, Scan.takeBreak.run i = .ok (['\n'], j) ∧ j.Shows size 0 (m.down 1) cs := by
  obtain ⟨j, hneed, hj⟩ := h.need 2
  have hhead : j.head = '\n' := hj.head_eq
  refine ⟨j.takeBreak.2, ?_, ?_⟩
  · rw [Scan.takeBreak, run_bind_ok hneed]
    have hbreak : j.takeBreak.1 = ['\n'] := by simp [Input.takeBreak, hhead, isBreak, breakText]
    rw [← hbreak]
    rfl
  · have hskip := hj.skip
    have hdown : j.takeBreak.2 =
        { j.skip with mark := j.mark.down 1, newlines := j.newlines + 1 } := by
      simp [Input.takeBreak, hhead, isBreak, Input.skip]
    rw [hdown]
    refine { hskip.mono (Nat.zero_le 1) with mark := ?_ }
    rw [← hj.mark]

end Shows

end Input

/-- The mark behind a number of characters on the same line. -/
def Mark.forward (m : Mark) (n : Nat) : Mark := ⟨m.index + n, m.line, m.column + n⟩

@[simp]
theorem Mark.forward_zero (m : Mark) : m.forward 0 = m := rfl

theorem Mark.right_forward (m : Mark) (n : Nat) : m.right.forward n = m.forward (n + 1) := by
  simp only [Mark.forward, Mark.right]
  congr 1 <;> omega

theorem Mark.forward_forward (m : Mark) (n k : Nat) :
    (m.forward n).forward k = m.forward (n + k) := by
  simp only [Mark.forward]
  congr 1 <;> omega

namespace Input.Shows

variable {i : Input} {size n : Nat} {m : Mark} {cs : List Char}

theorem advance {a : List Char} (h : i.Shows size (a.length + n) m (a ++ cs)) :
    (i.advance a.length).Shows size n (m.forward a.length) cs := by
  induction a generalizing i m with
  | nil => simpa [Input.advance] using h
  | cons c a ih =>
    rw [List.length_cons, Nat.add_right_comm] at h
    have hskip := ih h.skip
    rwa [Mark.right_forward] at hskip

theorem next_ne_endChar {c : Char} (h : i.Shows size n m (c :: cs)) : c ≠ endChar := by
  rintro rfl
  exact absurd (h.clean endChar (by simp)).1 (by decide)

/-! ## Loops -/

theorem skipWhile {p : Char → Bool} {a : List Char} (ha : ∀ c ∈ a, p c = true)
    (hcs : p (nextOf cs) = false) (h : i.Shows size 0 m (a ++ cs)) (fuel : Nat)
    (hfuel : a.length < fuel) :
    ∃ j, (Scan.skipWhile p fuel).run i = .ok ((), j) ∧ j.Shows size 1 (m.forward a.length) cs := by
  induction a generalizing i m fuel with
  | nil =>
    obtain ⟨fuel, rfl⟩ := Nat.exists_eq_add_one_of_ne_zero (Nat.ne_zero_of_lt hfuel)
    obtain ⟨j, hneed, hj⟩ := h.need 1
    refine ⟨j, ?_, hj⟩
    rw [Scan.skipWhile, run_bind_ok hneed, run_bind_ok (Scan.head_run j), hj.head_eq,
      if_neg (by simpa using hcs)]
    rfl
  | cons c a ih =>
    obtain ⟨fuel, rfl⟩ := Nat.exists_eq_add_one_of_ne_zero (Nat.ne_zero_of_lt hfuel)
    obtain ⟨j, hneed, hj⟩ := h.need 1
    obtain ⟨k, hrun, hk⟩ := ih (fun d hd => ha d (by simp [hd])) hj.skip fuel
      (Nat.lt_of_succ_lt_succ hfuel)
    refine ⟨k, ?_, by rwa [Mark.right_forward] at hk⟩
    rw [Scan.skipWhile, run_bind_ok hneed, run_bind_ok (Scan.head_run j), hj.head_eq,
      if_pos (by simpa using ha c (by simp)), run_bind_ok (Scan.skip_run j), hrun]

/-- No comment is found where blanks are not followed by one. -/
theorem commentBehind? (h : i.Shows size 0 m cs) (seen : Nat)
    (hcs : nextOf ((cs.drop seen).dropWhile isBlank) ≠ '#') (reach : Nat) :
    ∃ j, (Scan.commentBehind? isBlank reach seen).run i = .ok (none, j) ∧ j.Shows size 0 m cs := by
  induction reach generalizing i seen with
  | zero => exact ⟨i, rfl, h⟩
  | succ reach ih =>
    obtain ⟨j, hsees, hj⟩ := h.sees (seen + 1)
    have hlook : j.get seen = nextOf (cs.drop seen) := by
      rw [hj.get_eq (Nat.lt_succ_self seen)]
      simp [nextOf, List.head?_drop]
    have hstep : (Scan.commentBehind? isBlank (reach + 1) seen).run i =
        (if j.get seen == '#' then pure (some seen)
          else if isBlank (j.get seen) then Scan.commentBehind? isBlank reach (seen + 1)
          else pure none : Scan _).run j := by
      rw [Scan.commentBehind?, run_bind_ok hsees, if_pos rfl,
        run_bind_ok (Scan.look_run seen j)]
    rw [hstep, hlook]
    cases hdrop : cs.drop seen with
    | nil => exact ⟨j, rfl, hj.mono (Nat.zero_le _)⟩
    | cons c rest =>
      rw [hdrop] at hcs
      by_cases hblank : isBlank c = true
      · have hhash : c ≠ '#' := by rintro rfl; cases hblank
        have hnext : cs.drop (seen + 1) = rest := by
          rw [← List.tail_drop, hdrop, List.tail_cons]
        have hrest := ih (hj.mono (Nat.zero_le _)) (seen + 1) (by
          rw [hnext]
          simpa [List.dropWhile_cons, hblank] using hcs)
        simpa [hhash, hblank] using hrest
      · have hhash : c ≠ '#' := by simpa [List.dropWhile_cons, hblank] using hcs
        exact ⟨j, by simp [hhash, hblank]; rfl, hj.mono (Nat.zero_le _)⟩

theorem skipLineComment (h : i.Shows size 0 m cs) (hcs : nextOf (cs.dropWhile isBlank) ≠ '#') :
    ∃ j, Scan.skipLineComment.run i = .ok ((), j) ∧ j.Shows size 0 m cs := by
  rw [Scan.skipLineComment, run_get_bind]
  by_cases hnew : i.newlines = 0
  · obtain ⟨j, hrun, hj⟩ := h.commentBehind? 0 hcs Scan.commentReach
    exact ⟨j, by rw [if_pos hnew, run_bind_ok hrun]; rfl, hj⟩
  · exact ⟨i, by rw [if_neg hnew]; rfl, h⟩

/-! ## Between tokens -/

/-- Up to the next token or line break, over spaces. -/
theorem toNextToken_spaces {a : Nat} (hspace : nextOf cs ≠ ' ') (htab : nextOf cs ≠ '\t')
    (hhash : nextOf cs ≠ '#') (h : i.Shows size 0 m (List.replicate a ' ' ++ cs)) (fuel : Nat)
    (keyAllowed : Bool) :
    ∃ j, j.Shows size 1 (m.forward a) cs ∧ (Scan.toNextToken false (fuel + 1) keyAllowed).run i =
      (if isBreak (nextOf cs) then do
          let _ ← Scan.takeBreak
          Scan.toNextToken false fuel true
        else pure keyAllowed : Scan Bool).run j := by
  obtain ⟨j, hneed, hj⟩ := h.need 1
  have hsize := hj.size_le
  have hspaces : ∀ c ∈ List.replicate a ' ',
      (c == ' ' || (c == '\t' && (false || !keyAllowed))) = true := by simp
  obtain ⟨k, hskip, hk⟩ := (hj.mono (Nat.zero_le 1)).skipWhile hspaces (by simp [hspace, htab])
    (j.size + 2) (by simp at hsize ⊢; omega)
  refine ⟨k, by simpa using hk, ?_⟩
  rw [Scan.toNextToken, run_bind_ok hneed, run_get_bind, if_neg (by simp [hj.first]),
    run_bind_ok (Scan.fuel_run j), run_bind_ok hskip, run_bind_ok (Scan.head_run k), hk.head_eq,
    if_neg (by simp [hhash]), run_bind_ok (Scan.head_run k), hk.head_eq, Bool.not_false, Bool.or_true]

theorem toNextToken {a : Nat} (hcs : StartsToken (nextOf cs))
    (h : i.Shows size 0 m (List.replicate a ' ' ++ cs)) (fuel : Nat) (keyAllowed : Bool) :
    ∃ j, (Scan.toNextToken false (fuel + 1) keyAllowed).run i = .ok (keyAllowed, j) ∧
      j.Shows size 1 (m.forward a) cs := by
  obtain ⟨hspace, htab, hhash, hbreak⟩ := hcs
  obtain ⟨j, hj, hrun⟩ := h.toNextToken_spaces hspace htab hhash fuel keyAllowed
  refine ⟨j, ?_, hj⟩
  rw [hrun, if_neg (by simp [hbreak])]
  rfl

/-- Behind a line break a key may start. -/
theorem toNextToken_line {a b : Nat} (hcs : StartsToken (nextOf cs))
    (h : i.Shows size 0 m (List.replicate a ' ' ++ '\n' :: (List.replicate b ' ' ++ cs))) (fuel : Nat)
    (keyAllowed : Bool) :
    ∃ j, (Scan.toNextToken false (fuel + 2) keyAllowed).run i = .ok (true, j) ∧
      j.Shows size 1 (((m.forward a).down 1).forward b) cs := by
  obtain ⟨j, hj, hrun⟩ := h.toNextToken_spaces (by simp) (by simp) (by simp) (fuel + 1) keyAllowed
  obtain ⟨k, htake, hk⟩ := (hj.mono (Nat.zero_le 1)).takeBreak
  obtain ⟨l, hnext, hl⟩ := hk.toNextToken hcs fuel true
  refine ⟨l, ?_, hl⟩
  rw [hrun, if_pos (by rfl), run_bind_ok htake, hnext]

end Input.Shows

end TinyLang.Yaml
