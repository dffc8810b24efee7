import TinyLang.Native.Support
import TinyLang.Proofs.Number.Printer

/-!
# The line buffer neither overflows nor mixes lines

Items are cut where the memory of the line buffer ends, the text of an item and the space behind it
separately. What comes of it is the beginning of the whole line, however it is divided into items.

* `LineBuffer.Holds`: a memory with a line in it, in good order.
* `LineBuffer.append_holds`: appending keeps that, and cuts the line at the size of the memory.
* `State.calls_printed`: what a sequence of printing calls writes.
* `lines_are_cut_and_kept_apart`: the headline, with the message that may come last.
-/

namespace TinyLang.Native

namespace LineBuffer

/-! ## Writing to the memory -/

/-- A buffer with a line: the line stands at the start of the memory with a zero behind it, its length
is known, and no write has gone outside. -/
def Holds (b : LineBuffer) (line : Text) : Prop :=
  0 ∉ line ∧ ∃ rest : Text, (line ++ 0 :: rest).length = capacity ∧
    b = ⟨(line ++ 0 :: rest).toArray, line.length, false⟩

theorem store_eq (a : Text) (c v : UInt8) (r : Text) (n : Nat) (o : Bool) :
    store ⟨(a ++ c :: r).toArray, n, o⟩ a.length v = ⟨(a ++ v :: r).toArray, n, o⟩ := by
  rw [store, if_pos (by simp)]
  simp

theorem copy_eq {c t : Text} (h : c.length = t.length) (a r : Text) (n : Nat) (o : Bool) :
    copy ⟨(a ++ (c ++ r)).toArray, n, o⟩ a.length t = ⟨(a ++ (t ++ r)).toArray, n, o⟩ := by
  induction t generalizing a c with
  | nil => rw [List.eq_nil_of_length_eq_zero h, copy]
  | cons v t ih =>
    obtain _ | ⟨x, c⟩ := c
    · cases h
    · rw [copy, List.cons_append, store_eq]
      have hnext := ih (Nat.succ.inj h) (a ++ [v])
      simpa using hnext

theorem fitting_le (b : LineBuffer) (n : Nat) : b.fitting n ≤ n := by
  unfold fitting
  split <;> omega

/-- What is appended to a line that fits leaves room for the zero. -/
theorem fitting_lt {b : LineBuffer} (h : b.length < capacity) (n : Nat) :
    b.length + b.fitting n < capacity := by
  unfold fitting
  split <;> omega

theorem take_append_eq {line : Text} {b : LineBuffer} (hlength : b.length = line.length)
    (h : b.length < capacity) (t : Text) :
    (line ++ t).take (capacity - 1) = line ++ t.take (b.fitting t.length) := by
  rw [List.take_append, List.take_of_length_le (by omega)]
  unfold fitting
  split
  · rw [hlength, Nat.sub_right_comm]
  · rw [List.take_of_length_le (by omega), List.take_of_length_le (Nat.le_refl _)]

/-- **Appending cuts the line** at the size of the memory and keeps the buffer in good order. -/
theorem append_holds {b : LineBuffer} {line t : Text} (h : b.Holds line) (ht : 0 ∉ t) :
    (b.append t).Holds ((line ++ t).take (capacity - 1)) := by
  obtain ⟨hline, rest, hsize, hb⟩ := h
  have hlength : b.length = line.length := by rw [hb]
  have hfits : b.length < capacity := by
    rw [hlength, ← hsize, List.length_append, List.length_cons]
    omega
  rw [take_append_eq hlength hfits]
  have hroom := fitting_lt hfits t.length
  have hshort : (t.take (b.fitting t.length)).length = b.fitting t.length :=
    List.length_take_of_le (b.fitting_le t.length)
  -- the bytes that are written over, and the one that the zero is written over
  obtain ⟨c, d, r, hc, hsplit⟩ : ∃ (c : Text) (d : UInt8) (r : Text),
      c.length = b.fitting t.length ∧ 0 :: rest = c ++ d :: r := by
    have hlt : b.fitting t.length < (0 :: rest).length := by
      rw [List.length_append] at hsize
      omega
    refine ⟨(0 :: rest).take (b.fitting t.length), (0 :: rest)[b.fitting t.length],
      (0 :: rest).drop (b.fitting t.length + 1), List.length_take_of_le (Nat.le_of_lt hlt), ?_⟩
    rw [List.cons_getElem_drop_succ, List.take_append_drop]
  have hcopy := copy_eq (hc.trans hshort.symm) line (d :: r) line.length false
  have hstore := store_eq (line ++ t.take (b.fitting t.length)) d 0 r
    (line.length + b.fitting t.length) false
  rw [List.length_append, hshort] at hstore
  refine ⟨?_, r, ?_, ?_⟩
  · rw [List.mem_append, not_or]
    exact ⟨hline, fun hmem => ht (List.mem_of_mem_take hmem)⟩
  · rw [← hsize, hsplit]
    simp [hshort, hc]
  · rw [List.length_append, hshort, append, hlength]
    generalize b.fitting t.length = n at *
    rw [hb, hsplit, hcopy, ← List.append_assoc, hstore]

theorem empty_holds : empty.Holds [] := by
  refine ⟨List.not_mem_nil, List.replicate (capacity - 1) 0, ?_, ?_⟩
  · rw [List.nil_append, List.length_cons, List.length_replicate]
    rfl
  · rw [List.nil_append, ← List.replicate_succ, List.toArray_replicate]
    rfl

theorem clear_holds {b : LineBuffer} {line : Text} (h : b.Holds line) : b.clear.Holds [] := by
  obtain ⟨-, rest, hsize, rfl⟩ := h
  obtain ⟨c, r, hsplit⟩ : ∃ c r, line ++ 0 :: rest = c :: r :=
    List.exists_cons_of_ne_nil (List.append_ne_nil_of_right_ne_nil line (List.cons_ne_nil 0 rest))
  rw [hsplit] at hsize ⊢
  refine ⟨List.not_mem_nil, r, ?_, store_eq [] c 0 r 0 false⟩
  rw [← hsize]
  rfl

theorem text_of_holds {b : LineBuffer} {line : Text} (h : b.Holds line) : b.text = line := by
  obtain ⟨hline, rest, -, rfl⟩ := h
  have hall : ∀ x ∈ line, (x != 0) = true := fun x hx => bne_iff_ne.mpr fun heq => hline (heq ▸ hx)
  rw [text, upToZero, List.takeWhile_append_of_pos hall]
  simp

end LineBuffer

/-! ## Items -/

theorem upToZero_eq {t : Text} (h : 0 ∉ t) : upToZero t = t := by
  have hall : ∀ x ∈ t, (x != 0) = true := fun x hx => bne_iff_ne.mpr fun heq => h (heq ▸ hx)
  rw [upToZero, ← List.append_nil t, List.takeWhile_append_of_pos hall]
  rfl

theorem zero_notMem_ofNat (n : Nat) : 0 ∉ Text.ofNat n :=
  fun h => absurd (Text.isDigit_ofNat _ h) (by decide)

theorem zero_notMem_exponentText (e : Int) : 0 ∉ exponentText e := by
  have hdigits := zero_notMem_ofNat e.natAbs
  unfold exponentText
  refine List.not_mem_append (List.not_mem_append (by decide) ?_) ?_
  · split <;> decide
  · split
    · exact List.not_mem_append (by decide) hdigits
    · exact hdigits

theorem zero_notMem_pointAfterFirst {ds : Text} (h : 0 ∉ ds) : 0 ∉ pointAfterFirst ds := by
  intro hmem
  rcases mem_pointAfterFirst hmem with hpoint | hdigit
  · exact absurd hpoint (by decide)
  · exact h hdigit

theorem zero_notMem_fixedPlaces (v : Number) (places : Nat) : 0 ∉ fixedPlaces v places := by
  have hpadded : 0 ∉ List.replicate (places + 1 - (Text.ofNat (v.digitsAt (-(places : Int)))).length)
      (Text.byte '0') ++ Text.ofNat (v.digitsAt (-(places : Int))) :=
    List.not_mem_append (fun h => absurd (List.eq_of_mem_replicate h) (by decide))
      (zero_notMem_ofNat _)
  exact List.not_mem_append
    (List.not_mem_append (fun h => hpadded (List.mem_of_mem_take h)) (by decide))
    fun h => hpadded (List.mem_of_mem_drop h)

theorem zero_notMem_signText (v : Number) : 0 ∉ v.signText := by
  unfold Number.signText
  split <;> decide

theorem zero_notMem_specialText {v : Number} {t : Text} (h : v.specialText? = some t) : 0 ∉ t := by
  have hsign := zero_notMem_signText v
  unfold Number.specialText? at h
  split_ifs at h <;> cases h
  · decide
  · exact List.not_mem_append hsign (by decide)
  · exact List.not_mem_append hsign (by decide)

theorem zero_notMem_digitsText (v : Number) (precision : Nat) : 0 ∉ digitsText v precision := by
  intro h
  refine absurd (List.mem_of_mem_take h) (List.not_mem_append (zero_notMem_signText v) ?_)
  exact List.not_mem_append (zero_notMem_pointAfterFirst (zero_notMem_ofNat _))
    (zero_notMem_exponentText _)

/-- The text of a number has no zero bytes. -/
theorem zero_notMem_numberText (v : Number) : 0 ∉ numberText v := by
  intro h
  have hwhole : 0 ∈ wholeText v := List.mem_of_mem_take h
  unfold wholeText at hwhole
  split at hwhole
  next t ht => exact zero_notMem_specialText ht hwhole
  · dsimp only at hwhole
    split_ifs at hwhole
    · refine absurd hwhole (List.not_mem_append (fun hmantissa => ?_) (zero_notMem_exponentText _))
      exact zero_notMem_digitsText v _ (List.takeWhile_subset _ hmantissa)
    · exact absurd hwhole (List.not_mem_append (zero_notMem_signText v) (zero_notMem_fixedPlaces v _))

/-! ## Calls -/

namespace Call

/-- Whether a call prints an item or ends a line. -/
def isPrint : Call → Bool
  | .printText _ | .printNumber _ | .printEnd => true
  | _ => false

/-- The text of the item that a call prints. -/
def item? : Call → Option Text
  | .printText t => some t
  | .printNumber v => some (numberText v)
  | _ => none

/-- What is reported by a call that ends the program, other than one for input. -/
def report? : Call → Option Report
  | .undefinedVariable name line => some ⟨.undefinedVariable, line, name, []⟩
  | .illegalGoto label line => some ⟨.illegalGoto, line, label, []⟩
  | .syntaxError line => some ⟨.syntaxError, line, [], []⟩
  | _ => none

end Call

/-- A line of items, with a space behind each. -/
def lineOf (items : List Text) : Text := items.flatMap (· ++ [32])

/-- The lines that calls complete, when `items` were printed since the last line ended. -/
def completedLines (items : List Text) : List Call → List Text
  | [] => []
  | .printEnd :: cs => lineOf items :: completedLines [] cs
  | c :: cs => completedLines (items ++ c.item?.toList) cs

theorem lineOf_append (items : List Text) (t : Text) :
    lineOf (items ++ [t]) = lineOf items ++ t ++ [32] := by
  simp [lineOf]

theorem completedLines_item {c : Call} {t : Text} (h : c.item? = some t) (items : List Text)
    (cs : List Call) : completedLines items (c :: cs) = completedLines (items ++ [t]) cs := by
  cases c <;> cases h <;> rfl

namespace State

theorem take_take_append {n : Nat} (t u : Text) : (t.take n ++ u).take n = (t ++ u).take n := by
  rcases Nat.le_total t.length n with h | h
  · rw [List.take_of_length_le h]
  · rw [List.take_append_of_le_length h, List.take_append_of_le_length (by simp [h])]
    simp

theorem buffer_appendItem (s : State) {t : Text} (ht : 0 ∉ t) :
    (s.appendItem t).buffer = (s.buffer.append t).append [32] := by
  have hspace : (" " : Text) = [32] := by decide
  rw [appendItem, upToZero_eq ht, hspace]

/-- **An item is appended to the line as if the line were whole**: the item and the space behind it
are cut separately, which comes to the same. -/
theorem appendItem_holds {s : State} {items : List Text} {t : Text}
    (h : s.buffer.Holds ((lineOf items).take (LineBuffer.capacity - 1))) (ht : 0 ∉ t) :
    (s.appendItem t).buffer.Holds
      ((lineOf (items ++ [t])).take (LineBuffer.capacity - 1)) := by
  have hplain : 0 ∉ ([32] : Text) := by decide
  have hitem := LineBuffer.append_holds (LineBuffer.append_holds h ht) hplain
  rw [take_take_append, List.append_assoc, take_take_append, ← List.append_assoc] at hitem
  rw [buffer_appendItem s ht, lineOf_append]
  exact hitem

theorem output_appendItem (s : State) (t : Text) : (s.appendItem t).output = s.output := by
  rw [appendItem, output, output]

theorem ended_appendItem (s : State) (t : Text) : (s.appendItem t).ended = s.ended := by
  rw [appendItem]

theorem call_item {s : State} (hrunning : s.ended = false) {c : Call} {t : Text}
    (h : c.item? = some t) : s.call c = s.appendItem t := by
  rw [State.call.eq_def, if_neg (by rw [hrunning]; exact Bool.false_ne_true)]
  cases c <;> cases h <;> rfl

/-- The state after a line was completed. -/
def completed (s : State) : State :=
  { s with buffer := s.buffer.clear, written := (s.buffer.text ++ "\n") :: s.written }

theorem call_printEnd {s : State} (hrunning : s.ended = false) : s.call .printEnd = s.completed := by
  rw [State.call.eq_def, if_neg (by rw [hrunning]; exact Bool.false_ne_true), completed]

theorem completed_holds {s : State} {line : Text} (h : s.buffer.Holds line) :
    s.completed.buffer.Holds ((lineOf []).take (LineBuffer.capacity - 1)) := by
  rw [completed, lineOf, List.flatMap_nil, List.take_nil]
  exact LineBuffer.clear_holds h

theorem output_completed {s : State} {line : Text} (h : s.buffer.Holds line) :
    s.completed.output = s.output ++ (line ++ [10]) := by
  have hnewline : ("\n" : Text) = [10] := by decide
  rw [output, completed, LineBuffer.text_of_holds h, hnewline]
  simp [output]

/-- **What printing calls write**: the lines that they complete, cut at the size of the memory. The
buffer then holds the line that is not completed. -/
theorem calls_printed {cs : List Call} (hprint : ∀ c ∈ cs, c.isPrint = true)
    (htext : ∀ t, .printText t ∈ cs → 0 ∉ t) {s : State} {items : List Text}
    (hbuffer : s.buffer.Holds ((lineOf items).take (LineBuffer.capacity - 1)))
    (hrunning : s.ended = false) :
    (∃ line, (s.calls cs).buffer.Holds line) ∧ (s.calls cs).ended = false ∧
      (s.calls cs).output = s.output ++ (completedLines items cs).flatMap
        fun line => line.take (LineBuffer.capacity - 1) ++ [10] := by
  induction cs generalizing s items with
  | nil => exact ⟨⟨_, hbuffer⟩, hrunning, by simp [calls, completedLines]⟩
  | cons c cs ih =>
    have hprint' : ∀ c ∈ cs, c.isPrint = true := fun c hc => hprint c (List.mem_cons_of_mem _ hc)
    have htext' : ∀ t, .printText t ∈ cs → 0 ∉ t := fun t ht => htext t (List.mem_cons_of_mem _ ht)
    have hnext : s.calls (c :: cs) = (s.call c).calls cs := rfl
    rw [hnext]
    cases c with
    | printText t =>
      rw [call_item hrunning rfl, completedLines_item rfl, ← output_appendItem s t]
      exact ih hprint' htext' (appendItem_holds hbuffer (htext t List.mem_cons_self))
        ((s.ended_appendItem t).trans hrunning)
    | printNumber v =>
      rw [call_item hrunning rfl, completedLines_item rfl, ← output_appendItem s (numberText v)]
      exact ih hprint' htext' (appendItem_holds hbuffer (zero_notMem_numberText v))
        ((s.ended_appendItem _).trans hrunning)
    | printEnd =>
      rw [call_printEnd hrunning]
      obtain ⟨hline, hended, hout⟩ :=
        ih hprint' htext' (completed_holds hbuffer) hrunning
      refine ⟨hline, hended, ?_⟩
      rw [hout, output_completed hbuffer, completedLines, List.flatMap_cons, List.append_assoc]
    | input line => cases hprint _ List.mem_cons_self
    | undefinedVariable name line => cases hprint _ List.mem_cons_self
    | illegalGoto label line => cases hprint _ List.mem_cons_self
    | syntaxError line => cases hprint _ List.mem_cons_self

end State

/-! ## Messages -/

/-- The numeral of a line number of 32 bits is short. -/
theorem length_ofInt_le {n : Int} (h : -2 ^ 31 ≤ n) (h' : n < 2 ^ 31) :
    (Text.ofInt n).length ≤ 11 := by
  have hdigits : (Text.ofNat n.natAbs).length ≤ 10 := Text.length_ofNat_le (by decide) (by omega)
  unfold Text.ofInt
  split
  · rw [List.length_cons]
    omega
  · omega

/-- **Compiled programs word their messages as the interpreter does.** -/
theorem messageText_eq (kind : ReportKind) (name reason : Text) (line : Int) :
    messageText kind name line = Report.message ⟨kind, line, upToZero name, reason⟩ := by
  cases kind <;> rfl

/-- Where a message is cut short of 511 bytes, it is not that long. -/
theorem message_take {c : Call} {r : Report} (h : c.report? = some r) (hline : -2 ^ 31 ≤ r.line)
    (hline' : r.line < 2 ^ 31) : r.message.take (messageSize r.kind) = r.message.take 511 := by
  cases c <;> cases h
  · rfl
  · rfl
  next line =>
    have hnumeral := length_ofInt_le hline hline'
    have hlength : (Report.message ⟨.syntaxError, line, [], []⟩).length ≤ 63 := by
      have hhead : (("Syntax error on line " : String) : Text).length = 21 := by decide
      have htail : (("." : String) : Text).length = 1 := by decide
      rw [Report.message, List.length_append, List.length_append, hhead, htail]
      omega
    rw [messageSize, List.take_of_length_le hlength, List.take_of_length_le (by omega)]

theorem State.call_report {s : State} (hrunning : s.ended = false) {c : Call} {r : Report}
    (h : c.report? = some r) : s.call c = s.fail r.kind r.name r.line := by
  rw [State.call.eq_def, if_neg (by rw [hrunning]; exact Bool.false_ne_true)]
  cases c <;> cases h <;> rfl

/-- A message is written by itself, without the line that was not completed. -/
theorem State.output_fail (s : State) {r : Report} (hname : 0 ∉ r.name) :
    (s.fail r.kind r.name r.line).output =
      s.output ++ (r.message.take (messageSize r.kind) ++ [10]) := by
  have hnewline : ("\n" : Text) = [10] := by decide
  rw [output, fail, messageText_eq r.kind r.name r.reason, upToZero_eq hname, hnewline]
  simp [output]

/-- **The line buffer neither overflows nor mixes lines.** After any calls that print texts without
zero bytes and numbers and end lines, the line in the buffer is at most 65535 bytes long and has a
zero behind it, and all writes were inside the memory of 65536 bytes. The output is that of the lines
that were ended: the items of each with a space behind every item, the first 65535 bytes of that, and a
newline. If the program then reports a name that is not defined, a label that does not exist or a
wrong statement, what is left of the last line is dropped, and the first 511 bytes of the message for
that are written, with a newline, before it ends with code 1. -/
theorem lines_are_cut_and_kept_apart (stdin : Text) {cs : List Call}
    (hprint : ∀ c ∈ cs, c.isPrint = true) (htext : ∀ t, .printText t ∈ cs → 0 ∉ t) :
    let s := (State.start stdin).calls cs
    s.buffer.length ≤ 65535 ∧ s.buffer.memory.size = 65536 ∧
    s.buffer.memory[s.buffer.length]? = some 0 ∧ s.buffer.overrun = false ∧
    s.output = (completedLines [] cs).flatMap (fun line => line.take 65535 ++ [10]) ∧
    s.exitCode = 0 ∧
    ∀ c r, c.report? = some r → 0 ∉ r.name → -2 ^ 31 ≤ r.line → r.line < 2 ^ 31 →
      (s.call c).output = s.output ++ (r.message.take 511 ++ [10]) ∧ (s.call c).exitCode = 1 ∧
        (s.call c).buffer.overrun = false := by
  intro s
  have hstart : (State.start stdin).buffer.Holds ((lineOf []).take (LineBuffer.capacity - 1)) :=
    LineBuffer.empty_holds
  obtain ⟨⟨line, hline⟩, hrunning, hout⟩ := State.calls_printed hprint htext hstart rfl
  obtain ⟨-, rest, hsize, hbuffer⟩ := hline
  have hend : s.buffer.memory[s.buffer.length]? = some 0 := by
    rw [show s.buffer = _ from hbuffer]
    simp
  have hinside : s.buffer.overrun = false := congrArg LineBuffer.overrun hbuffer
  have hmemory : s.buffer.memory.size = LineBuffer.capacity := by
    rw [show s.buffer = _ from hbuffer, ← hsize]
    rfl
  have hlength : s.buffer.length < s.buffer.memory.size := (Array.getElem?_eq_some_iff.mp hend).1
  refine ⟨?_, hmemory, hend, hinside, hout, ?_, fun c r hr hname hline hline' => ?_⟩
  · rw [hmemory] at hlength
    exact Nat.le_of_lt_succ hlength
  · rw [State.exitCode, hrunning]
    rfl
  · rw [State.call_report hrunning hr]
    refine ⟨?_, rfl, hinside⟩
    rw [State.output_fail s hname, message_take hr hline hline']

/-- Two items on a line, then one that no line is completed with before the program ends. -/
theorem lines_are_cut_and_kept_apart_undefined :
    let s := (State.start []).calls [.printText "a", .printNumber ⟨0⟩, .printEnd, .printText "b"]
    s.output = ("a 0.0 \n" : Text) ∧ s.buffer.overrun = false ∧
      (s.call (.undefinedVariable "x" 3)).output =
        ("a 0.0 \nUndefined variable x at line 3.\n" : Text) ∧
      (s.call (.undefinedVariable "x" 3)).exitCode = 1 := by
  intro s
  have hprint : ∀ c ∈ [Call.printText "a", .printNumber ⟨0⟩, .printEnd, .printText "b"],
      c.isPrint = true := by decide
  have htext : ∀ t, .printText t ∈ [Call.printText "a", .printNumber ⟨0⟩, .printEnd,
      .printText "b"] → 0 ∉ t := by
    intro t ht
    simp only [List.mem_cons, Call.printText.injEq, reduceCtorEq, List.not_mem_nil, or_false,
      false_or] at ht
    rcases ht with rfl | rfl <;> decide
  obtain ⟨-, -, -, hinside, hout, -, hreport⟩ := lines_are_cut_and_kept_apart [] hprint htext
  have hlines : s.output = ("a 0.0 \n" : Text) := by
    rw [hout]
    decide +kernel
  obtain ⟨hmessage, hcode, -⟩ := hreport (.undefinedVariable "x" 3) _ rfl (by decide) (by decide)
    (by decide)
  refine ⟨hlines, hinside, ?_, hcode⟩
  rw [hmessage, hlines]
  decide +kernel

end TinyLang.Native
