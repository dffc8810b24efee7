import TinyLang.Proofs.Code.Printer
import TinyLang.Proofs.Text.Encoding
import Mathlib.Data.List.TakeWhile

/-!
# Globals that the text of a module names

A global is named in the text of a module by an at sign and the bytes behind it. The lines of a
block name the globals that its instructions refer to, and a line outside the function introduces
the global that it names first.

* `globalsIn`: the globals that a text names, read off the text.
* `globalsIn_instrText`, `globalsIn_blockText`: the lines of a block name what its instructions
  refer to.
* `Module.introducing`: the lines that introduce a global. The value and the flag of a slot, a
  constant and a function of the support code are each introduced by one line
  (`introducing_value`, `introducing_flag`, `introducing_constant`, `introducing_function`).
-/

namespace TinyLang

open Text (byte)

namespace Code

/-! ## Names in a text -/

/-- Whether a byte may stand in the name of a global. -/
def isNameByte (b : UInt8) : Bool :=
  Text.isDigit b || b == byte '.' || b == byte '_' ||
    (byte 'a' ≤ Text.lowerAscii b && Text.lowerAscii b ≤ byte 'z')

/-- The globals that a text names: each at sign with the name behind it. -/
def globalsIn : Text → List Text
  | [] => []
  | b :: rest =>
    if b = byte '@' then (b :: rest.takeWhile isNameByte) :: globalsIn rest else globalsIn rest

/-- A text can be cut where no name goes on. -/
theorem globalsIn_append {ys : Text} (hys : ∀ b ∈ ys.head?, isNameByte b = false) (xs : Text) :
    globalsIn (xs ++ ys) = globalsIn xs ++ globalsIn ys := by
  have htake : ys.takeWhile isNameByte = [] := by
    cases ys with
    | nil => rfl
    | cons b ys => rw [List.takeWhile_cons_of_neg (by simp [hys b rfl])]
  have hcut : ∀ xs : Text, (xs ++ ys).takeWhile isNameByte = xs.takeWhile isNameByte := by
    intro xs
    induction xs with
    | nil => exact htake
    | cons b xs ih => rw [List.cons_append, List.takeWhile_cons, List.takeWhile_cons, ih]
  induction xs with
  | nil => rfl
  | cons b xs ih =>
    rw [List.cons_append, globalsIn, globalsIn, hcut, ih]
    split_ifs <;> rfl

/-- Plain text names nothing, whatever follows it. -/
theorem globalsIn_plain {xs : Text} (h : byte '@' ∉ xs) (ys : Text) :
    globalsIn (xs ++ ys) = globalsIn ys := by
  induction xs with
  | nil => rfl
  | cons b xs ih =>
    rw [List.mem_cons, not_or] at h
    rw [List.cons_append, globalsIn, if_neg (Ne.symm h.1), ih h.2]

theorem globalsIn_eq_nil {xs : Text} (h : byte '@' ∉ xs) : globalsIn xs = [] := by
  rw [← List.append_nil xs, globalsIn_plain h]
  rfl

/-- An at sign and the bytes of a name. -/
def IsGlobalName (g : Text) : Prop := ∃ name, g = byte '@' :: name ∧ ∀ b ∈ name, isNameByte b

theorem isNameByte_spec : ∀ b, isNameByte b → b ≠ byte '@' := Text.forall_byte (by decide +kernel)

theorem isNameByte_of_isDigit {b : UInt8} (h : Text.isDigit b) : isNameByte b := by
  simp [isNameByte, h]

theorem IsGlobalName.globalsIn {g : Text} (hg : IsGlobalName g) : globalsIn g = [g] := by
  obtain ⟨name, rfl, hname⟩ := hg
  have hat : byte '@' ∉ name := fun hmem => isNameByte_spec _ (hname _ hmem) rfl
  rw [Code.globalsIn, if_pos rfl, globalsIn_eq_nil hat, List.takeWhile_eq_self_iff.2 hname]

/-- The global that is named behind plain text, where no name goes on. -/
theorem IsGlobalName.globalsIn_behind {g before tail : Text} (hg : IsGlobalName g)
    (hbefore : byte '@' ∉ before) (htail : ∀ b ∈ tail.head?, isNameByte b = false) :
    Code.globalsIn (before ++ (g ++ tail)) = g :: Code.globalsIn tail := by
  rw [globalsIn_plain hbefore, globalsIn_append htail, hg.globalsIn]
  rfl

theorem isGlobalName_numbered {g : Text} (hg : IsGlobalName g) (n : Nat) :
    IsGlobalName (g ++ Text.ofNat n) := by
  obtain ⟨name, rfl, hname⟩ := hg
  exact ⟨name ++ Text.ofNat n, rfl, List.forall_mem_append.2
    ⟨hname, fun b hb => isNameByte_of_isDigit (Text.isDigit_ofNat b hb)⟩⟩

theorem isGlobalName_valueName (n : Nat) : IsGlobalName (valueName n) :=
  isGlobalName_numbered ⟨"var.", rfl, List.all_eq_true.1 rfl⟩ n

theorem isGlobalName_flagName (n : Nat) : IsGlobalName (flagName n) :=
  isGlobalName_numbered ⟨"set.", rfl, List.all_eq_true.1 rfl⟩ n

theorem isGlobalName_textName (n : Nat) : IsGlobalName (textName n) :=
  isGlobalName_numbered ⟨"str.", rfl, List.all_eq_true.1 rfl⟩ n

/-! ## Functions of the support code -/

/-- The functions that compiled code calls, by name. -/
def functionNames : List Text :=
  ["@tl_print_str", "@tl_print_num", "@tl_print_end", "@tl_input", "@tl_undefined",
    "@tl_illegal_goto", "@tl_syntax_error"]

theorem isGlobalName_of_function {g : Text} (h : g ∈ functionNames) : IsGlobalName g := by
  have hall : ∀ g ∈ functionNames, g = byte '@' :: g.drop 1 ∧ (g.drop 1).all isNameByte := by
    decide +kernel
  obtain ⟨hcons, hname⟩ := hall g h
  exact ⟨g.drop 1, hcons, List.all_eq_true.1 hname⟩

/-! ## Lines of a block -/

/-- The globals that an instruction refers to, in the order in which its line names them. -/
def Instr.globals : Instr → List Text
  | loadFlag _ slot => [flagName slot]
  | loadValue _ slot => [valueName slot]
  | storeValue _ slot => [valueName slot]
  | raiseFlag slot => [flagName slot]
  | input _ _ => ["@tl_input"]
  | printText text => ["@tl_print_str", textName text]
  | printNumber _ => ["@tl_print_num"]
  | printEnd => ["@tl_print_end"]
  | undefinedVariable text _ => ["@tl_undefined", textName text]
  | illegalGoto text _ => ["@tl_illegal_goto", textName text]
  | syntaxError _ => ["@tl_syntax_error"]
  | _ => []

/-- The bytes of number literals. -/
def isLiteralByte (b : UInt8) : Bool :=
  Text.isDigit b || b ∈ ("ABCDEFex.+-" : Text)

theorem isLiteralByte_spec : ∀ b, isLiteralByte b → b ≠ byte '@' :=
  Text.forall_byte (by decide +kernel)

theorem isLiteralByte_of_isDigit {b : UInt8} (h : Text.isDigit b) : isLiteralByte b := by
  simp [isLiteralByte, h]

theorem isLiteralByte_patternText (n : Nat) : ∀ b ∈ patternText n, isLiteralByte b := by
  refine List.forall_mem_append.2 ⟨List.all_eq_true.1 rfl, fun b hb => ?_⟩
  obtain ⟨c, hc, rfl⟩ := List.mem_map.1 hb
  obtain ⟨ds, hds, hdigits, -⟩ := Text.exists_toDigits n
  rw [hdigits] at hc
  obtain ⟨d, hd, rfl⟩ := List.mem_map.1 hc
  have hall : ∀ d < 16, isLiteralByte (byte (Nat.digitChar d).toUpper) := by decide +kernel
  exact hall d (hds d hd)

theorem isLiteralByte_pointedText {ds : Text} (hds : ∀ b ∈ ds, isLiteralByte b) :
    ∀ b ∈ pointedText ds, isLiteralByte b := by
  unfold pointedText
  split
  · exact List.forall_mem_append.2 ⟨hds, List.all_eq_true.1 rfl⟩
  · intro b hb
    rcases mem_pointAfterFirst hb with rfl | hb
    · rfl
    · exact hds b hb

theorem isLiteralByte_exponentText (e : ℤ) : ∀ b ∈ exponentText e, isLiteralByte b := by
  obtain ⟨ds, hds, -, hdigits, -⟩ := exponentText_eq e
  rw [hds]
  refine List.forall_mem_cons.2 ⟨rfl, List.forall_mem_cons.2 ⟨?_, fun b hb => ?_⟩⟩
  · split_ifs <;> rfl
  · exact isLiteralByte_of_isDigit (hdigits b hb)

theorem isLiteralByte_fixedText {ds : Text} (hne : ds ≠ []) (hds : ∀ b ∈ ds, Text.isDigit b)
    (k : ℤ) : ∀ b ∈ fixedText ds k, isLiteralByte b := by
  obtain ⟨whole, fraction, hfixed, -, -, hdigits, -⟩ := fixedText_eq hne hds k
  rw [List.forall_mem_append] at hdigits
  rw [hfixed]
  refine List.forall_mem_append.2 ⟨List.forall_mem_append.2 ⟨fun b hb => ?_, ?_⟩, fun b hb => ?_⟩
  · exact isLiteralByte_of_isDigit (hdigits.1 b hb)
  · exact List.all_eq_true.1 rfl
  · exact isLiteralByte_of_isDigit (hdigits.2 b hb)

theorem isLiteralByte_literalText (v : Number) : ∀ b ∈ literalText v, isLiteralByte b := by
  have hsign : ∀ b ∈ v.signText, isLiteralByte b := by
    unfold Number.signText
    split_ifs <;> exact List.all_eq_true.1 rfl
  unfold literalText
  split
  · exact isLiteralByte_patternText _
  split
  · exact isLiteralByte_patternText _
  split
  · exact List.forall_mem_append.2 ⟨hsign, List.all_eq_true.1 rfl⟩
  split
  next n k _ =>
    have hdigits : ∀ b ∈ Text.ofNat n, Text.isDigit b := Text.isDigit_ofNat
    split
    · refine List.forall_mem_append.2 ⟨hsign, ?_⟩
      split
      · exact List.forall_mem_append.2 ⟨isLiteralByte_pointedText fun b hb =>
          isLiteralByte_of_isDigit (hdigits b hb), isLiteralByte_exponentText _⟩
      · exact isLiteralByte_fixedText (Text.ofNat_ne_nil _) hdigits _
    · exact isLiteralByte_patternText _

section Lines

variable (cx : PrintContext)

theorem at_notMem_ofNat (n : Nat) : byte '@' ∉ Text.ofNat n := fun hmem =>
  isNameByte_spec _ (isNameByte_of_isDigit (Text.isDigit_ofNat _ hmem)) rfl

theorem at_notMem_regText (r : Nat) : byte '@' ∉ regText cx r := by
  rw [regText, List.mem_append, not_or]
  exact ⟨by decide, at_notMem_ofNat _⟩

theorem at_notMem_operandText (o : Operand) : byte '@' ∉ operandText cx o := by
  cases o with
  | reg r => exact at_notMem_regText cx r
  | const v => exact fun hmem => isLiteralByte_spec _ (isLiteralByte_literalText v _ hmem) rfl

theorem at_notMem_labelText (l : Label) : byte '@' ∉ labelText cx l := by
  cases l with
  | entry => exact (by decide : byte '@' ∉ ("entry" : Text))
  | exit => exact (by decide : byte '@' ∉ ("exit" : Text))
  | line n =>
    rw [labelText, List.mem_append, not_or]
    exact ⟨by decide, at_notMem_ofNat n⟩
  | aux id => exact at_notMem_ofNat _

theorem globalsIn_terminatorText (t : Terminator) : globalsIn (terminatorText cx t) = [] := by
  refine globalsIn_eq_nil ?_
  cases t with
  | jump target =>
    rw [terminatorText, List.mem_append, not_or]
    exact ⟨by decide, at_notMem_labelText cx target⟩
  | fork flag yes no =>
    simp only [terminatorText, List.mem_append, not_or]
    exact ⟨⟨⟨⟨⟨by decide, at_notMem_regText cx flag⟩, by decide⟩, at_notMem_labelText cx yes⟩,
      by decide⟩, at_notMem_labelText cx no⟩
  | ret => exact (by decide : byte '@' ∉ ("ret i32 0" : Text))
  | unreachable => exact (by decide : byte '@' ∉ ("unreachable" : Text))

/-- An assignment names what its right side names. -/
theorem globalsIn_assign (r : Nat) (body : Text) :
    globalsIn (regText cx r ++ " = " ++ body) = globalsIn body := by
  rw [List.append_assoc, globalsIn_plain (at_notMem_regText cx r), globalsIn_plain (by decide)]

/-- A function that is called, and what stands in its parentheses. -/
theorem globalsIn_call (before g args : Text) (hg : g ∈ functionNames)
    (hbefore : byte '@' ∉ before) :
    globalsIn (before ++ (g ++ ("(" ++ args))) = g :: globalsIn args := by
  rw [(isGlobalName_of_function hg).globalsIn_behind hbefore, globalsIn_plain (by decide)]
  rintro b ⟨⟩
  rfl

theorem globalsIn_pointerText (text : Nat) {tail : Text} (htail : byte '@' ∉ tail) :
    globalsIn (pointerText cx text ++ tail) = [textName text] := by
  have htype : ∀ t, byte '@' ∉ arrayType t := by
    intro t
    simp only [arrayType, List.mem_append, not_or]
    exact ⟨⟨by decide, at_notMem_ofNat _⟩, by decide⟩
  have hshape : ∀ ty : Text, "i8* getelementptr (" ++ ty ++ ", " ++ ty ++ "* @str." ++
      Text.ofNat text ++ ", i32 0, i32 0)" ++ tail =
        ("i8* getelementptr (" ++ ty ++ ", " ++ ty ++ "* ") ++
          (textName text ++ (", i32 0, i32 0)" ++ tail)) := by
    intro ty
    simp only [textName, List.append_assoc]
    rfl
  rw [pointerText, hshape, (isGlobalName_textName text).globalsIn_behind, globalsIn_eq_nil]
  · rw [List.mem_append, not_or]
    exact ⟨by decide, htail⟩
  · simp only [List.mem_append, not_or]
    exact ⟨⟨⟨⟨by decide, htype _⟩, by decide⟩, htype _⟩, by decide⟩
  · rintro b ⟨⟩
    rfl

/-- A slot is named at the end of a line. -/
theorem globalsIn_slot (before : Text) {g : Text} (hg : IsGlobalName g) (hbefore : byte '@' ∉ before) :
    globalsIn (before ++ g) = [g] := by
  rw [globalsIn_plain hbefore, hg.globalsIn]

/-- **The line of an instruction names the globals that the instruction refers to.** -/
theorem globalsIn_instrText (i : Instr) : globalsIn (instrText cx i) = i.globals := by
  have hline : ∀ n : Nat, byte '@' ∉ ("i32 " ++ Text.ofNat n ++ ")" : Text) := by
    intro n
    simp only [List.mem_append, not_or]
    exact ⟨⟨by decide, at_notMem_ofNat n⟩, by decide⟩
  have hreport : ∀ g ∈ functionNames, ∀ text line : Nat,
      globalsIn ("call void " ++ (g ++ ("(" ++ (pointerText cx text ++ (", " ++
        ("i32 " ++ Text.ofNat line ++ ")")))))) = [g, textName text] := by
    intro g hg text line
    have htail : byte '@' ∉ (", " ++ ("i32 " ++ Text.ofNat line ++ ")") : Text) := by
      rw [List.mem_append, not_or]
      exact ⟨by decide, hline line⟩
    rw [globalsIn_call _ _ _ hg (by decide), globalsIn_pointerText cx text htail]
  cases i with
  | loadFlag dst slot =>
    refine (globalsIn_assign cx dst _).trans ?_
    exact globalsIn_slot "load i1, i1* " (isGlobalName_flagName slot) (by decide)
  | loadValue dst slot =>
    refine (globalsIn_assign cx dst _).trans ?_
    exact globalsIn_slot "load double, double* " (isGlobalName_valueName slot) (by decide)
  | storeValue value slot =>
    have hbefore : byte '@' ∉ ("store double " ++ operandText cx value ++ ", double* " : Text) := by
      simp only [List.mem_append, not_or]
      exact ⟨⟨by decide, at_notMem_operandText cx value⟩, by decide⟩
    rw [Instr.globals, ← globalsIn_slot _ (isGlobalName_valueName slot) hbefore, valueName,
      List.append_assoc _ (Text.ofString ", double* ")]
    exact congrArg globalsIn (List.append_assoc _ _ _)
  | raiseFlag slot =>
    exact globalsIn_slot "store i1 true, i1* " (isGlobalName_flagName slot) (by decide)
  | arith dst op a b =>
    refine (globalsIn_assign cx dst _).trans (globalsIn_eq_nil ?_)
    simp only [instrBody, List.mem_append, not_or]
    refine ⟨⟨⟨⟨?_, by decide⟩, at_notMem_operandText cx a⟩, by decide⟩, at_notMem_operandText cx b⟩
    cases op <;> decide
  | compare dst rel a b =>
    refine (globalsIn_assign cx dst _).trans (globalsIn_eq_nil ?_)
    simp only [instrBody, List.mem_append, not_or]
    refine ⟨⟨⟨⟨⟨by decide, ?_⟩, by decide⟩, at_notMem_operandText cx a⟩, by decide⟩,
      at_notMem_operandText cx b⟩
    cases rel <;> decide
  | widen dst flag =>
    refine (globalsIn_assign cx dst _).trans (globalsIn_eq_nil ?_)
    simp only [instrBody, List.mem_append, not_or]
    exact ⟨⟨by decide, at_notMem_regText cx flag⟩, by decide⟩
  | input dst line =>
    refine (globalsIn_assign cx dst _).trans ?_
    exact (globalsIn_call "call double " "@tl_input" _ (by decide) (by decide)).trans
      (congrArg _ (globalsIn_eq_nil (hline line)))
  | printText text =>
    exact (globalsIn_call "call void " "@tl_print_str" (pointerText cx text ++ ")") (by decide)
      (by decide)).trans (congrArg _ (globalsIn_pointerText cx text (by decide)))
  | printNumber value =>
    refine (globalsIn_call "call void " "@tl_print_num" ("double " ++ operandText cx value ++ ")")
      (by decide) (by decide)).trans (congrArg _ (globalsIn_eq_nil ?_))
    simp only [List.mem_append, not_or]
    exact ⟨⟨by decide, at_notMem_operandText cx value⟩, by decide⟩
  | printEnd => exact globalsIn_call "call void " "@tl_print_end" ")" (by decide) (by decide)
  | undefinedVariable text line =>
    rw [Instr.globals, ← hreport "@tl_undefined" (by decide) text line]
    simp only [instrText, Instr.dst?, instrBody, List.append_assoc]
    rfl
  | illegalGoto text line =>
    rw [Instr.globals, ← hreport "@tl_illegal_goto" (by decide) text line]
    simp only [instrText, Instr.dst?, instrBody, List.append_assoc]
    rfl
  | syntaxError line =>
    exact (globalsIn_call "call void " "@tl_syntax_error" _ (by decide) (by decide)).trans
      (congrArg _ (globalsIn_eq_nil (hline line)))

/-- **The text of a block names what its instructions refer to.** -/
theorem globalsIn_blockText (b : Block) :
    globalsIn (blockText cx b) = b.instrs.flatMap Instr.globals := by
  have hlines : ∀ ts : List Text, globalsIn (ts.flatMap fun t => ("\t" ++ t ++ "\n" : Text)) =
      ts.flatMap globalsIn := by
    intro ts
    induction ts with
    | nil => rfl
    | cons t ts ih =>
      have hcut : ∀ b ∈ (("\n" : Text) ++ ts.flatMap fun t => ("\t" ++ t ++ "\n" : Text)).head?,
          isNameByte b = false := by
        rintro b ⟨⟩
        rfl
      rw [List.flatMap_cons, List.flatMap_cons, List.append_assoc, List.append_assoc,
        globalsIn_plain (by decide), globalsIn_append hcut, globalsIn_plain (by decide), ih]
  have hname : byte '@' ∉ labelText cx b.label ++ (":\n" : Text) := by
    rw [List.mem_append, not_or]
    exact ⟨at_notMem_labelText cx _, by decide⟩
  rw [blockText_eq, globalsIn_plain hname, hlines, Block.lines, List.flatMap_append,
    List.flatMap_singleton, globalsIn_terminatorText, List.append_nil, List.flatMap_map]
  exact congrArg (List.flatMap · b.instrs) (funext (globalsIn_instrText cx))

end Lines

/-! ## Lines that introduce globals -/

/-- The lines outside the function: definitions of globals, and declarations of functions. -/
def Module.header (M : Module) : List Text := globalLines 0 0 M.globals ++ declarations

/-- The lines that introduce a global: those that name it first. -/
def Module.introducing (M : Module) (g : Text) : List Text :=
  M.header.filter fun t => (globalsIn t).head? = some g

theorem filter_eq_singleton {α β : Type} [DecidableEq β] {f : α → β} {l : List α}
    (h : (l.map f).Nodup) {a : α} (ha : a ∈ l) : l.filter (fun x => f x = f a) = [a] := by
  induction l with
  | nil => cases ha
  | cons x l ih =>
    rw [List.map_cons, List.nodup_cons] at h
    rcases List.mem_cons.1 ha with rfl | ha
    · have hrest : l.filter (fun x => f x = f a) = [] := by
        refine List.filter_eq_nil_iff.2 fun y hy heq => h.1 ?_
        rw [← of_decide_eq_true heq]
        exact List.mem_map_of_mem hy
      rw [List.filter_cons_of_pos (by simp), hrest]
    · have hne : f x ≠ f a := fun heq => h.1 (heq ▸ List.mem_map_of_mem ha)
      rw [List.filter_cons_of_neg (by simpa using hne), ih h.2 ha]

theorem isGlobalName_of_defined {slot text : Nat} {gs : List Global} {g : Text}
    (h : g ∈ (globalDefs slot text gs).map Prod.fst) : IsGlobalName g := by
  rcases mem_globalDefs h with ⟨n, -, rfl | rfl⟩ | ⟨n, -, rfl⟩
  · exact isGlobalName_valueName _
  · exact isGlobalName_flagName _
  · exact isGlobalName_textName _

theorem head?_definitionLine {d : Text × Text} (h : IsGlobalName d.1) :
    (globalsIn (definitionLine d)).head? = some d.1 := by
  have hcut : ∀ b ∈ ((" = " : Text) ++ d.2).head?, isNameByte b = false := by
    rintro b ⟨⟩
    rfl
  rw [definitionLine, List.append_assoc, globalsIn_append hcut, h.globalsIn]
  rfl

/-- The functions of the support code are no slots and no texts. -/
theorem function_not_defined {slot text : Nat} {gs : List Global} {g : Text}
    (hg : g ∈ functionNames) : g ∉ (globalDefs slot text gs).map Prod.fst := by
  have hsecond : ∀ g ∈ functionNames, g[1]? = some (byte 't') := by decide
  intro hdef
  have hbyte := hsecond g hg
  rcases mem_globalDefs hdef with ⟨n, -, rfl | rfl⟩ | ⟨n, -, rfl⟩
  · exact absurd (Option.some.inj hbyte) (by decide)
  · exact absurd (Option.some.inj hbyte) (by decide)
  · exact absurd (Option.some.inj hbyte) (by decide)

/-- What the lines outside the function introduce. -/
theorem Module.header_names (M : Module) : M.header.map (fun t => (globalsIn t).head?) =
    ((globalDefs 0 0 M.globals).map Prod.fst ++ functionNames).map some := by
  have hdecl : declarations.map (fun t => (globalsIn t).head?) = functionNames.map some := by
    decide +kernel
  rw [Module.header, List.map_append, List.map_append, hdecl, globalLines_eq, List.map_map,
    List.map_map, List.append_cancel_right_eq]
  refine List.map_congr_left fun d hd => ?_
  exact head?_definitionLine (isGlobalName_of_defined (List.mem_map_of_mem hd))

/-- **No global is introduced twice.** -/
theorem Module.introducing_eq {M : Module} {t g : Text} (ht : t ∈ M.header)
    (hg : (globalsIn t).head? = some g) : M.introducing g = [t] := by
  have hnodup : (M.header.map fun t => (globalsIn t).head?).Nodup := by
    rw [M.header_names]
    refine List.Nodup.map (Option.some_injective _) (List.nodup_append'.2 ?_)
    exact ⟨globalDefs_nodup 0 0 _, by decide, fun g hdef hfun => function_not_defined hfun hdef⟩
  have hfilter := filter_eq_singleton hnodup ht
  rwa [hg] at hfilter

theorem Module.introducing_defined {M : Module} {g body : Text}
    (h : (g, body) ∈ globalDefs 0 0 M.globals) :
    M.introducing g = [g ++ (" = " : Text) ++ body] := by
  refine introducing_eq ?_ (head?_definitionLine (isGlobalName_of_defined (List.mem_map_of_mem h)))
  rw [Module.header, globalLines_eq]
  exact List.mem_append_left _ (List.mem_map_of_mem h)

theorem Module.introducing_value {M : Module} {n : Nat} (h : n < (slotNamesOf M.globals).length) :
    M.introducing (valueName n) = [valueName n ++ (" = global double 0.0" : Text)] := by
  have hdef := (globalDefs_slot 0 0 h).1
  rw [Nat.zero_add] at hdef
  rw [introducing_defined hdef, List.append_assoc]
  rfl

theorem Module.introducing_flag {M : Module} {n : Nat} (h : n < (slotNamesOf M.globals).length) :
    M.introducing (flagName n) = [flagName n ++ (" = global i1 false" : Text)] := by
  have hdef := (globalDefs_slot 0 0 h).2
  rw [Nat.zero_add] at hdef
  rw [introducing_defined hdef, List.append_assoc]
  rfl

theorem Module.introducing_constant {M : Module} {n : Nat} {t : Text}
    (h : (textsOf M.globals)[n]? = some t) :
    M.introducing (textName n) = [textName n ++ (" = constant " : Text) ++ arrayType t ++ " c\"" ++
      (t ++ [0]).flatMap escapeByte ++ "\""] := by
  have hdef := globalDefs_text 0 0 h
  rw [Nat.zero_add] at hdef
  rw [introducing_defined hdef]
  simp only [constantText, quotedBytes, List.append_assoc]
  rfl

theorem Module.introducing_function {M : Module} {g : Text} (h : g ∈ functionNames) :
    ∃ t, M.introducing g = [t] := by
  have hall : ∀ g ∈ functionNames, ∃ t ∈ declarations, (globalsIn t).head? = some g := by
    decide +kernel
  obtain ⟨t, ht, hg⟩ := hall g h
  exact ⟨t, introducing_eq (List.mem_append_right _ ht) hg⟩

/-- The lines that define globals introduce slots and texts. -/
theorem Module.introducing_cases {M : Module} {t : Text} (h : t ∈ globalLines 0 0 M.globals) :
    (∃ n < (slotNamesOf M.globals).length,
        M.introducing (valueName n) = [t] ∨ M.introducing (flagName n) = [t]) ∨
      ∃ n < (textsOf M.globals).length, M.introducing (textName n) = [t] := by
  rw [globalLines_eq] at h
  obtain ⟨d, hd, rfl⟩ := List.mem_map.1 h
  have hname := List.mem_map_of_mem (f := Prod.fst) hd
  have hintro : M.introducing d.1 = [definitionLine d] := introducing_defined hd
  rcases mem_globalDefs hname with ⟨n, hn, h | h⟩ | ⟨n, hn, h⟩
  · rw [Nat.zero_add] at h
    exact .inl ⟨n, hn, .inl (h ▸ hintro)⟩
  · rw [Nat.zero_add] at h
    exact .inl ⟨n, hn, .inr (h ▸ hintro)⟩
  · rw [Nat.zero_add] at h
    exact .inr ⟨n, hn, h ▸ hintro⟩

end Code

end TinyLang
