import TinyLang.Code.Printer
import TinyLang.Proofs.Number.Printer

/-!
# What the text of a module defines

The text of a module defines each of its globals under a name of its own, and each of its blocks as
a list of lines.

* `globalDefs`: the definitions of the globals by name. Every name is defined once
  (`globalDefs_nodup`); slot `n` has `@var.n` and `@set.n`, and text `n` has `@str.n`.
* `unescape_escape`: the bytes of a constant can be read off its definition.
* `Block.Ends`: control leaves a block with its last line, and with no other. `Block.Closed` says
  what it takes, and `Block.Closed.ends` that it is enough.
-/

namespace TinyLang

open Text (byte)

namespace Code

/-! ## Names of globals -/

/-- The name of the value of a slot. -/
def valueName (slot : Nat) : Text := "@var." ++ Text.ofNat slot

/-- The name of the flag of a slot. -/
def flagName (slot : Nat) : Text := "@set." ++ Text.ofNat slot

/-- The name of a constant text. -/
def textName (text : Nat) : Text := "@str." ++ Text.ofNat text

theorem valueName_inj {m n : Nat} : valueName m = valueName n ↔ m = n := by
  rw [valueName, valueName, List.append_cancel_left_eq, Text.ofNat_injective.eq_iff]

theorem flagName_inj {m n : Nat} : flagName m = flagName n ↔ m = n := by
  rw [flagName, flagName, List.append_cancel_left_eq, Text.ofNat_injective.eq_iff]

theorem textName_inj {m n : Nat} : textName m = textName n ↔ m = n := by
  rw [textName, textName, List.append_cancel_left_eq, Text.ofNat_injective.eq_iff]

/-- Names of different kinds differ within their first five bytes. -/
theorem name_kinds (m n : Nat) :
    valueName m ≠ flagName n ∧ valueName m ≠ textName n ∧ flagName m ≠ textName n := by
  refine ⟨fun h => ?_, fun h => ?_, fun h => ?_⟩
  · have := List.append_inj_left h rfl
    exact absurd this (by decide)
  · have := List.append_inj_left h rfl
    exact absurd this (by decide)
  · have := List.append_inj_left h rfl
    exact absurd this (by decide)

/-- The definition of a constant text: its bytes and a final zero. -/
def constantText (bytes : Text) : Text :=
  "constant " ++ arrayType bytes ++ " c" ++ quotedBytes (bytes ++ [0])

/-- The definitions of globals by name, slots and texts numbered from `slot` and `text` on. -/
def globalDefs : (slot text : Nat) → List Global → List (Text × Text)
  | _, _, [] => []
  | slot, text, .slot _ :: rest =>
    (valueName slot, "global double 0.0") :: (flagName slot, "global i1 false") ::
      globalDefs (slot + 1) text rest
  | slot, text, .text bytes :: rest =>
    (textName text, constantText bytes) :: globalDefs slot (text + 1) rest

/-- The line that defines a global. -/
def definitionLine (d : Text × Text) : Text := d.1 ++ (" = " : Text) ++ d.2

theorem globalLines_eq (slot text : Nat) (gs : List Global) :
    globalLines slot text gs = (globalDefs slot text gs).map definitionLine := by
  induction gs generalizing slot text with
  | nil => rfl
  | cons g rest ih =>
    cases g with
    | slot name =>
      rw [globalLines, globalDefs, List.map_cons, List.map_cons, ← ih]
      simp only [definitionLine, valueName, flagName, List.append_assoc]
      rfl
    | text bytes =>
      rw [globalLines, globalDefs, List.map_cons, ← ih]
      simp only [definitionLine, textName, constantText, List.append_assoc]
      rfl

/-- A name that is defined is that of a slot or of a text. -/
theorem mem_globalDefs {slot text : Nat} {gs : List Global} {name : Text}
    (h : name ∈ (globalDefs slot text gs).map Prod.fst) :
    (∃ n < (slotNamesOf gs).length, name = valueName (slot + n) ∨ name = flagName (slot + n)) ∨
      ∃ n < (textsOf gs).length, name = textName (text + n) := by
  induction gs generalizing slot text with
  | nil => cases h
  | cons g rest ih =>
    cases g with
    | slot x =>
      rw [globalDefs, List.map_cons, List.map_cons, List.mem_cons, List.mem_cons] at h
      have hlen : (slotNamesOf (.slot x :: rest)).length = (slotNamesOf rest).length + 1 := rfl
      rcases h with rfl | rfl | h
      · exact .inl ⟨0, by omega, .inl rfl⟩
      · exact .inl ⟨0, by omega, .inr rfl⟩
      · refine (ih h).imp_left ?_
        rintro ⟨n, hn, hname⟩
        rw [Nat.add_right_comm] at hname
        exact ⟨n + 1, by omega, hname⟩
    | text bytes =>
      rw [globalDefs, List.map_cons, List.mem_cons] at h
      have hlen : (textsOf (.text bytes :: rest)).length = (textsOf rest).length + 1 := rfl
      rcases h with rfl | h
      · exact .inr ⟨0, by omega, rfl⟩
      · refine (ih h).imp_right ?_
        rintro ⟨n, hn, hname⟩
        rw [Nat.add_right_comm] at hname
        exact ⟨n + 1, by omega, hname⟩

/-- **No name is defined twice.** -/
theorem globalDefs_nodup (slot text : Nat) (gs : List Global) :
    ((globalDefs slot text gs).map Prod.fst).Nodup := by
  induction gs generalizing slot text with
  | nil => exact List.nodup_nil
  | cons g rest ih =>
    cases g with
    | slot x =>
      rw [globalDefs, List.map_cons, List.map_cons, List.nodup_cons, List.nodup_cons, List.mem_cons,
        not_or]
      refine ⟨⟨(name_kinds _ _).1, fun h => ?_⟩, fun h => ?_, ih _ _⟩
      · rcases mem_globalDefs h with ⟨n, -, h | h⟩ | ⟨n, -, h⟩
        · have := valueName_inj.1 h
          omega
        · exact (name_kinds _ _).1 h
        · exact (name_kinds _ _).2.1 h
      · rcases mem_globalDefs h with ⟨n, -, h | h⟩ | ⟨n, -, h⟩
        · exact (name_kinds _ _).1 h.symm
        · have := flagName_inj.1 h
          omega
        · exact (name_kinds _ _).2.2 h
    | text bytes =>
      rw [globalDefs, List.map_cons, List.nodup_cons]
      refine ⟨fun h => ?_, ih _ _⟩
      rcases mem_globalDefs h with ⟨n, -, h | h⟩ | ⟨n, -, h⟩
      · exact (name_kinds _ _).2.1 h.symm
      · exact (name_kinds _ _).2.2 h.symm
      · have := textName_inj.1 h
        omega

/-- Every slot has its two definitions. -/
theorem globalDefs_slot (slot text : Nat) {n : Nat} {gs : List Global}
    (h : n < (slotNamesOf gs).length) :
    (valueName (slot + n), ("global double 0.0" : Text)) ∈ globalDefs slot text gs ∧
      (flagName (slot + n), ("global i1 false" : Text)) ∈ globalDefs slot text gs := by
  induction gs generalizing slot text n with
  | nil => exact absurd h (Nat.not_lt_zero _)
  | cons g rest ih =>
    cases g with
    | slot x =>
      cases n with
      | zero => simp [globalDefs]
      | succ n =>
        obtain ⟨h1, h2⟩ := ih (slot + 1) text (Nat.lt_of_succ_lt_succ h)
        rw [Nat.add_right_comm] at h1 h2
        exact ⟨.tail _ (.tail _ h1), .tail _ (.tail _ h2)⟩
    | text bytes => exact (ih slot (text + 1) h).imp (.tail _) (.tail _)

/-- Every constant text has its definition. -/
theorem globalDefs_text (slot text : Nat) {n : Nat} {gs : List Global} {bytes : Text}
    (h : (textsOf gs)[n]? = some bytes) :
    (textName (text + n), constantText bytes) ∈ globalDefs slot text gs := by
  induction gs generalizing slot text n with
  | nil => cases h
  | cons g rest ih =>
    cases g with
    | slot x => exact .tail _ (.tail _ (ih (slot + 1) text h))
    | text t =>
      cases n with
      | zero =>
        cases h
        exact .head _
      | succ n =>
        have hmem := ih slot (text + 1) h
        rw [Nat.add_right_comm] at hmem
        exact .tail _ hmem

/-! ## Constants -/

/-- The value of an upper-case hexadecimal digit. -/
def hexValue (d : UInt8) : UInt8 := if 65 ≤ d then d - 55 else d - 48

/-- The bytes that a quoted text stands for: a backslash and two hexadecimal digits are one byte,
and all else is itself. -/
def unescape : Text → Text
  | [] => []
  | [b] => [b]
  | [b, c] => b :: unescape [c]
  | b :: high :: low :: rest =>
    if b = byte '\\' then (hexValue high * 16 + hexValue low) :: unescape rest
    else b :: unescape (high :: low :: rest)

theorem unescape_cons {b : UInt8} (h : b ≠ byte '\\') (t : Text) :
    unescape (b :: t) = b :: unescape t := by
  match t with
  | [] => rfl
  | [c] => rfl
  | c :: d :: r => rw [unescape, if_neg h]

theorem escapeByte_cases (b : UInt8) : escapeByte b = [b] ∧ b ≠ byte '\\' ∨
    ∃ high low, escapeByte b = [byte '\\', high, low] ∧ hexValue high * 16 + hexValue low = b := by
  unfold escapeByte
  split
  next h =>
    simp only [Bool.and_eq_true, bne_iff_ne] at h
    exact .inl ⟨rfl, h.2⟩
  · refine .inr ⟨_, _, rfl, ?_⟩
    revert b
    exact Text.forall_byte (by decide +kernel)

/-- **The bytes of a constant can be read back.** -/
theorem unescape_escape (t : Text) : unescape (t.flatMap escapeByte) = t := by
  induction t with
  | nil => rfl
  | cons b t ih =>
    rw [List.flatMap_cons]
    rcases escapeByte_cases b with ⟨hesc, hb⟩ | ⟨high, low, hesc, hvalue⟩
    · rw [hesc, List.singleton_append, unescape_cons hb, ih]
    · rw [hesc]
      show unescape (byte '\\' :: high :: low :: t.flatMap escapeByte) = b :: t
      rw [unescape, if_pos rfl, hvalue, ih]

/-! ## Lines of a block -/

/-- The lines of a block below its name: the instructions and the terminator. -/
def Block.lines (cx : PrintContext) (b : Block) : List Text :=
  b.instrs.map (instrText cx) ++ [terminatorText cx b.terminator]

theorem blockText_eq (cx : PrintContext) (b : Block) : blockText cx b =
    labelText cx b.label ++ ":\n" ++ (b.lines cx).flatMap fun t => ("\t" ++ t ++ "\n" : Text) := rfl

/-- Whether a line ends a block. -/
def isTerminatorLine (t : Text) : Bool :=
  t.startsWith "br " || t.startsWith "ret " || t.startsWith "unreachable"

/-- Whether a line reports a name: a variable without a value, or a label that no line carries. -/
def isReportLine (t : Text) : Bool :=
  t.startsWith "call void @tl_undefined(" || t.startsWith "call void @tl_illegal_goto("

/-- Whether a line calls a function that does not return. -/
def isFatalLine (t : Text) : Bool := isReportLine t || t.startsWith "call void @tl_syntax_error("

/-- Whether an instruction reports a name. -/
def Instr.isReport : Instr → Bool
  | undefinedVariable _ _ => true
  | illegalGoto _ _ => true
  | _ => false

/-- Whether an instruction ends the program. -/
def Instr.isFatal : Instr → Bool
  | syntaxError _ => true
  | i => i.isReport

theorem Instr.isReport_of_isFatal {i : Instr} (h : i.isFatal = false) : i.isReport = false := by
  cases i <;> first | rfl | cases h

theorem isTerminatorLine_terminatorText (cx : PrintContext) (t : Terminator) :
    isTerminatorLine (terminatorText cx t) := by
  cases t <;> rfl

theorem isTerminatorLine_instrText (cx : PrintContext) (i : Instr) :
    ¬ isTerminatorLine (instrText cx i) := by
  cases i <;> exact Bool.false_ne_true

theorem isReportLine_terminatorText (cx : PrintContext) (t : Terminator) :
    isReportLine (terminatorText cx t) = false := by
  cases t <;> rfl

theorem isReportLine_instrText (cx : PrintContext) (i : Instr) :
    isReportLine (instrText cx i) = i.isReport := by
  cases i <;> rfl

theorem isFatalLine_instrText (cx : PrintContext) (i : Instr) :
    isFatalLine (instrText cx i) = i.isFatal := by
  cases i <;> rfl

theorem terminatorText_eq_unreachable {cx : PrintContext} {t : Terminator} :
    terminatorText cx t = "unreachable" ↔ t = .unreachable := by
  refine ⟨fun h => ?_, fun h => h ▸ rfl⟩
  have hstart : (terminatorText cx t).startsWith "unreachable" = true := by rw [h]; rfl
  cases t with
  | unreachable => rfl
  | jump target => exact absurd hstart Bool.false_ne_true
  | fork flag yes no => exact absurd hstart Bool.false_ne_true
  | ret => exact absurd hstart Bool.false_ne_true

theorem terminatorText_eq_ret {cx : PrintContext} {t : Terminator} :
    terminatorText cx t = "ret i32 0" ↔ t = .ret := by
  refine ⟨fun h => ?_, fun h => h ▸ rfl⟩
  have hstart : (terminatorText cx t).startsWith "ret" = true := by rw [h]; rfl
  cases t with
  | ret => rfl
  | jump target => exact absurd hstart Bool.false_ne_true
  | fork flag yes no => exact absurd hstart Bool.false_ne_true
  | unreachable => exact absurd hstart Bool.false_ne_true

/-- **How a block must end in the text of a module**: control leaves it with its last line, and
with no other. -/
structure Block.Ends (cx : PrintContext) (b : Block) (body : List Text) (last : Text) : Prop where
  lines : b.lines cx = body ++ [last]
  /-- The last line is a terminator. -/
  terminator : isTerminatorLine last
  /-- No other line is one. -/
  single : ∀ t ∈ body, ¬ isTerminatorLine t
  /-- A call that does not return has no instruction behind it. -/
  fatal : ∀ t ∈ body.dropLast, ¬ isFatalLine t
  /-- The end is marked as unreachable exactly behind such a call. -/
  unreachable : last = "unreachable" ↔ ∃ t ∈ body.getLast?, isFatalLine t
  /-- Only the exit returns. -/
  returns : last = "ret i32 0" ↔ b.label = .exit

/-- How a block can end: it hands over to another, it fails, or it is the exit. -/
inductive Block.Closed : Block → Prop
  | onward {label : Label} {is : List Instr} {term : Terminator} (his : ∀ i ∈ is, i.isFatal = false)
      (hterm : term ≠ .ret ∧ term ≠ .unreachable) (hlabel : label ≠ .exit) : Closed ⟨label, is, term⟩
  | failed {label : Label} {is : List Instr} {i : Instr} (his : ∀ j ∈ is, j.isFatal = false)
      (hi : i.isFatal = true) (hlabel : label ≠ .exit) : Closed ⟨label, is ++ [i], .unreachable⟩
  | exit : Closed ⟨.exit, [], .ret⟩

theorem Block.Closed.ends {b : Block} (h : b.Closed) (cx : PrintContext) :
    b.Ends cx (b.instrs.map (instrText cx)) (terminatorText cx b.terminator) where
  lines := rfl
  terminator := isTerminatorLine_terminatorText cx _
  single := by
    intro t ht
    obtain ⟨i, -, rfl⟩ := List.mem_map.1 ht
    exact isTerminatorLine_instrText cx i
  fatal := by
    intro t ht
    rw [← List.map_dropLast] at ht
    obtain ⟨i, hi, rfl⟩ := List.mem_map.1 ht
    rw [isFatalLine_instrText, Bool.not_eq_true]
    cases h with
    | onward his _ _ => exact his i (List.dropLast_subset _ hi)
    | failed his _ _ =>
      rw [List.dropLast_concat] at hi
      exact his i hi
    | exit => cases hi
  unreachable := by
    rw [terminatorText_eq_unreachable, List.getLast?_map]
    cases h with
    | onward his hterm _ =>
      refine iff_of_false hterm.2 ?_
      rintro ⟨t, ht, hfatal⟩
      obtain ⟨i, hi, rfl⟩ := Option.map_eq_some_iff.1 ht
      rw [isFatalLine_instrText, his i (List.mem_of_getLast? hi)] at hfatal
      exact Bool.false_ne_true hfatal
    | @failed label is i _ hi _ =>
      refine iff_of_true rfl ⟨instrText cx i, ?_, by rw [isFatalLine_instrText, hi]⟩
      rw [List.getLast?_concat]
      rfl
    | exit => exact iff_of_false Terminator.noConfusion nofun
  returns := by
    rw [terminatorText_eq_ret]
    cases h with
    | onward _ hterm hlabel => exact iff_of_false hterm.1 hlabel
    | failed _ _ hlabel => exact iff_of_false Terminator.noConfusion hlabel
    | exit => exact iff_of_true rfl rfl

end Code

end TinyLang
