import TinyLang.Machine.Basic
import TinyLang.Proofs.Number.Printer

/-!
# What print writes, input reads back

A number that one statement prints and another one reads from the line so written is the same
number, bit by bit. What is no number is printed in one way only, so there the bits may differ.

* `Machine.exec_print_var`: the line that a variable is printed on.
* `Machine.exec_input_text`: reading such a line.
* `print_reads_back`: the headline, with the notation of what is printed.
-/

namespace TinyLang

open Text (byte)

/-- Whether two numbers have the same bits, or neither of them is a number. -/
def Number.Same (v w : Number) : Prop := v = w ∨ v.isNaN ∧ w.isNaN

theorem Number.read_text_same (v : Number) : ∃ w, Number.read v.text = .ok w ∧ v.Same w := by
  by_cases h : v.isNaN
  · obtain ⟨w, hread, hw⟩ := Number.read_text_nan h
    exact ⟨w, hread, .inr ⟨h, hw⟩⟩
  · exact ⟨v, Number.read_text h, .inl rfl⟩

/-- A line with number text, trimmed. -/
theorem Number.trim_text (v : Number) : (v.text ++ " \n" : Text).trim = v.text := by
  have hbytes := fun b hb => Number.isNumberByte_spec b (v.isNumberByte_text b hb)
  have h := Text.trim_eq (l := []) (t := v.text) (r := " \n") ?_ (List.forall_mem_nil _)
    (List.all_eq_true.1 rfl)
    ⟨fun b hb => (hbytes b (List.mem_of_mem_head? hb)).2.1,
      fun b hb => (hbytes b (List.mem_of_mem_getLast? hb)).2.1⟩
  · exact h
  · have hend : List.all (" \n" : Text) (fun b => decide (b < 0x80)) = true := rfl
    exact List.forall_mem_append.2 ⟨fun b hb => (hbytes b hb).1,
      fun b hb => of_decide_eq_true (List.all_eq_true.1 hend b hb)⟩

namespace Output

theorem text_write {o : Output} {t : Text} (h : o.fits t) : (o.write t).text = o.text ++ t := by
  unfold fits at h
  unfold write text
  split
  · simp
  · next n hroom =>
    rw [hroom, decide_eq_true_eq] at h
    simp [List.take_of_length_le h]

end Output

namespace Machine

variable {m : Machine} {conf : Settings} {v : Number}

theorem exec_print_var {x : Text} (h : m.vars.find? x = some v)
    (hfits : m.output.fits (v.text ++ " \n")) (line : ℤ) :
    m.exec conf ⟨line, .print [.value (.var x)]⟩ =
      ({ m with output := m.output.write (v.text ++ " \n") }, .ok .next) := by
  have hprinted : m.printed line [.value (.var x)] = .ok (v.text ++ " \n") := by
    simp [printed, printedText, PrintItem.eval, Expr.eval, h]
    rfl
  simp only [exec, perform_print, hprinted, write, hfits, if_true]

theorem ask_eq (h : conf.prompt = [] ∨ m.output.fits conf.prompt) :
    ∃ o, m.ask conf.prompt = ({ m with output := o }, .ok ()) := by
  rw [ask_def]
  by_cases hempty : conf.prompt = []
  · exact ⟨m.output, by simp [hempty]⟩
  · have hfits := h.resolve_left hempty
    exact ⟨m.output.write conf.prompt, by simp [hempty, write, hfits]⟩

theorem exec_input_text {rest : Text} (hinput : m.input = v.text ++ " \n" ++ rest)
    (hprompt : conf.prompt = [] ∨ m.output.fits conf.prompt) (line : ℤ) (y : Text) :
    ∃ m' w, m.exec conf ⟨line, .input y⟩ = (m', .ok .next) ∧ v.Same w ∧
      m'.vars.find? y = some w ∧ m'.input = rest := by
  obtain ⟨w, hread, hsame⟩ := v.read_text_same
  obtain ⟨o, hask⟩ := ask_eq hprompt
  have hbytes := fun b hb => Number.isNumberByte_spec b (v.isNumberByte_text b hb)
  have hnewline : byte '\n' ∉ (v.text ++ [byte ' '] : Text) := by
    rw [List.mem_append, not_or]
    exact ⟨fun hmem => (hbytes _ hmem).2.2.1 rfl, by decide⟩
  have hline : m.input.takeLine? = some (v.text ++ " \n", rest) := by
    have htake := Text.takeLine?_line hnewline rest
    rw [List.append_assoc, List.append_assoc] at htake
    rw [hinput, List.append_assoc]
    exact htake
  rw [← Number.read?_eq_some] at hread
  refine ⟨({ m with output := o, input := rest } : Machine).set y w, w, ?_, hsame,
    Table.find?_insert_self _ _ _, rfl⟩
  simp only [exec, perform_input, hask, readNumber, hline, v.trim_text, hread]

end Machine

/-- **What print writes, input reads back.** The text of a number is read as the number, by its bits
unless it is no number; so a variable is printed on a line from which an input statement recovers
its value, whatever follows that line. The text of a finite number is its sign and its shortest
decimal, in fixed notation while the exponent of the first digit is from -4 to 15 and in scientific
notation otherwise. -/
theorem print_reads_back (v : Number) :
    (∃ w, Number.read v.text = .ok w ∧ v.Same w) ∧
    (∃ written : Text,
      (∀ (m : Machine) (conf : Settings) (line : ℤ) (x : Text),
        m.vars.find? x = some v → m.output.fits written →
          ∃ m', m.exec conf ⟨line, .print [.value (.var x)]⟩ = (m', .ok .next) ∧
            m'.output.text = m.output.text ++ written) ∧
      ∀ (m : Machine) (conf : Settings) (line : ℤ) (y rest : Text),
        m.input = written ++ rest → (conf.prompt = [] ∨ m.output.fits conf.prompt) →
          ∃ m' w, m.exec conf ⟨line, .input y⟩ = (m', .ok .next) ∧ v.Same w ∧
            m'.vars.find? y = some w ∧ m'.input = rest) ∧
    (v.isZero → ∃ t, v.text = v.signText ++ t ∧ InFixed t 0) ∧
    (v.Regular → ∃ n k t, v.IsShortest n k ∧ v.text = v.signText ++ t ∧
      if -4 ≤ Number.firstExponent n k ∧ Number.firstExponent n k < 16 then InFixed t (n * 10 ^ k)
      else InScientific t (n * 10 ^ k)) := by
  refine ⟨v.read_text_same, ⟨v.text ++ " \n", ?_, ?_⟩, ?_, ?_⟩
  · intro m conf line x hx hfits
    exact ⟨_, m.exec_print_var hx hfits line, Output.text_write hfits⟩
  · intro m conf line y rest hinput hprompt
    exact m.exec_input_text hinput hprompt line y
  · intro hzero
    have hvalue : Text.digitsValue (("0" : Text) ++ ("0" : Text)) = 0 := rfl
    refine ⟨"0.0", Number.text_zero hzero, "0", "0", rfl, by decide, by decide,
      List.all_eq_true.1 rfl, ?_⟩
    rw [hvalue, Nat.cast_zero, zero_mul]
  · intro hregular
    exact ⟨_, _, _, Number.shortest_isShortest hregular, Number.text_regular hregular,
      Number.decimalText_notation (Number.firstExponent_shortest hregular).1 _⟩

/-- The smallest number and negative zero, each printed and read back. -/
theorem print_reads_back_smallest :
    let v : Number := ⟨1⟩
    let z : Number := ⟨0x8000000000000000⟩
    let m : Machine := ⟨[("x", v), ("z", z)], [], 0, [], .empty none, []⟩
    (∃ written m', m.exec {} ⟨1, .print [.value (.var "x")]⟩ = (m', .ok .next) ∧
      m'.output.text = written ∧
      ∃ m'' w, ({ m with input := written } : Machine).exec {} ⟨2, .input "y"⟩ = (m'', .ok .next) ∧
        v.Same w ∧ m''.vars.find? "y" = some w) ∧
    (v.Regular ∧ ∃ n k t, v.IsShortest n k ∧ v.text = v.signText ++ t ∧
      if -4 ≤ Number.firstExponent n k ∧ Number.firstExponent n k < 16 then InFixed t (n * 10 ^ k)
      else InScientific t (n * 10 ^ k)) ∧
    (z.isZero ∧ ∃ t, z.text = z.signText ++ t ∧ InFixed t 0) := by
  intro v z m
  have hregular : v.Regular := ⟨by decide, by decide⟩
  obtain ⟨written, hprint, hinput⟩ := (print_reads_back v).2.1
  obtain ⟨m', hexec, htext⟩ := hprint m {} 1 "x" rfl rfl
  obtain ⟨m'', w, hexec', hsame, hy, -⟩ :=
    hinput { m with input := written } {} 2 "y" [] (List.append_nil _).symm (.inl rfl)
  exact ⟨⟨written, m', hexec, htext, m'', w, hexec', hsame, hy⟩,
    ⟨hregular, (print_reads_back v).2.2.2 hregular⟩, by decide, (print_reads_back z).2.2.1 (by decide)⟩

end TinyLang
