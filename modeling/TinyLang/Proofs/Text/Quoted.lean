import TinyLang.Text.Quoted
import TinyLang.Proofs.Text.Encoding

/-!
# Reading quoted text back

A text shown between double quotes can be read back, stray bytes included, and it is seen where it
ends. So what is said about one text is never what is said about another.

* `takeQuoted`: takes a text up to the closing quote.
* `takeQuoted_rune`: the step. What a rune is shown as is read as its bytes.
* `takeQuoted_quoted`: a quoted text is read as the text, whatever stands behind it.
* `quoted_append_inj`: two quoted texts with something behind are the same only if the texts are.
-/

namespace TinyLang

namespace Text

/-! ## A reader -/

/-- The value of a hexadecimal digit in lower case. -/
def hexDigit (d : UInt8) : Nat := if byte 'a' ≤ d then d.toNat - 87 else d.toNat - 48

/-- The number that hexadecimal digits make. -/
def hexNumber (ds : Text) : Nat := ds.foldl (fun n d => n * 16 + hexDigit d) 0

/-- The byte that a letter behind a backslash stands for. -/
def controlByte (letter : UInt8) : UInt8 :=
  if letter = byte 'a' then 0x07
  else if letter = byte 'b' then 0x08
  else if letter = byte 'f' then 0x0C
  else if letter = byte 'n' then 0x0A
  else if letter = byte 'r' then 0x0D
  else if letter = byte 't' then 0x09
  else if letter = byte 'v' then 0x0B
  else letter

/-- How many digits stand behind a letter that announces some, and the bytes that their number stands
for. -/
def escape? (letter : UInt8) : Option (Nat × (Nat → Text)) :=
  if letter = byte 'x' then some (2, fun n => [n.toUInt8])
  else if letter = byte 'u' then some (4, Rune.encode)
  else if letter = byte 'U' then some (8, Rune.encode)
  else none

/-- Puts bytes in front of what was taken. -/
def prepend (bytes : Text) (taken : Option (Text × Text)) : Option (Text × Text) :=
  taken.map fun (t, rest) => (bytes ++ t, rest)

/-- Takes a text up to the closing quote. -/
def takeQuoted : Text → Option (Text × Text)
  | [] => none
  | b :: rest =>
    if b = byte '"' then some ([], rest)
    else if b = byte '\\' then
      match rest with
      | [] => none
      | letter :: rest =>
        match escape? letter with
        | none => prepend [controlByte letter] (takeQuoted rest)
        | some (width, bytes) =>
          prepend (bytes (hexNumber (rest.take width))) (takeQuoted (rest.drop width))
    else prepend [b] (takeQuoted rest)
termination_by t => t.length
decreasing_by all_goals simp only [List.length_cons, List.length_drop]; omega

theorem prepend_append (a b : Text) (taken : Option (Text × Text)) :
    prepend a (prepend b taken) = prepend (a ++ b) taken := by
  cases taken with
  | none => rfl
  | some x => exact congrArg (fun t => some (t, x.2)) (List.append_assoc a b x.1).symm

variable {rest : Text}

/-! ## One byte and one escape -/

theorem takeQuoted_plain {b : UInt8} (hquote : b ≠ byte '"') (hslash : b ≠ byte '\\') :
    takeQuoted (b :: rest) = prepend [b] (takeQuoted rest) := by
  rw [takeQuoted.eq_def]
  dsimp only
  rw [if_neg hquote, if_neg hslash]

theorem takeQuoted_plains {bytes : Text} (h : ∀ b ∈ bytes, b ≠ byte '"' ∧ b ≠ byte '\\') :
    takeQuoted (bytes ++ rest) = prepend bytes (takeQuoted rest) := by
  induction bytes with
  | nil =>
    rw [List.nil_append]
    cases takeQuoted rest <;> rfl
  | cons b bytes ih =>
    obtain ⟨hb, hbytes⟩ := List.forall_mem_cons.mp h
    rw [List.cons_append, takeQuoted_plain hb.1 hb.2, ih hbytes, prepend_append]
    rfl

theorem takeQuoted_letter {letter : UInt8} (h : escape? letter = none) :
    takeQuoted (byte '\\' :: letter :: rest) = prepend [controlByte letter] (takeQuoted rest) := by
  rw [takeQuoted, if_neg (by decide), if_pos rfl, h]

theorem takeQuoted_digits {letter : UInt8} {width : Nat} {bytes : Nat → Text} {digits : Text}
    (h : escape? letter = some (width, bytes)) (hdigits : digits.length = width) :
    takeQuoted (byte '\\' :: letter :: (digits ++ rest)) =
      prepend (bytes (hexNumber digits)) (takeQuoted rest) := by
  rw [takeQuoted, if_neg (by decide), if_pos rfl, h]
  dsimp only
  rw [← hdigits, List.take_left, List.drop_left]

/-! ## Digits -/

theorem hexDigit_digitChar : ∀ d < 16, hexDigit (byte d.digitChar) = d := by
  decide

/-- **Hexadecimal digits are read back.** -/
theorem hexNumber_ofNatHex {width n : Nat} (hwidth : 0 < width) (hn : n < 16 ^ width) :
    (ofNatHex width n).length = width ∧ hexNumber (ofNatHex width n) = n := by
  obtain ⟨ds, hlength, hds, hdigits, hvalue⟩ := exists_ofNatHex hwidth hn
  rw [hdigits, List.length_map]
  refine ⟨hlength, ?_⟩
  calc hexNumber (ds.map fun d => byte d.digitChar)
      = ds.foldl (fun m d => m * 16 + hexDigit (byte d.digitChar)) 0 := List.foldl_map
    _ = ds.foldl (fun m d => m * 16 + d) 0 :=
      List.foldl_ext _ _ 0 fun m d hd => by rw [hexDigit_digitChar d (hds d hd)]
    _ = n := hvalue

theorem takeQuoted_number {letter : UInt8} {width n : Nat} {bytes : Nat → Text}
    (h : escape? letter = some (width, bytes)) (hwidth : 0 < width) (hn : n < 16 ^ width) :
    takeQuoted (byte '\\' :: letter :: (ofNatHex width n ++ rest)) =
      prepend (bytes n) (takeQuoted rest) := by
  obtain ⟨hlength, hvalue⟩ := hexNumber_ofNatHex hwidth hn
  rw [takeQuoted_digits h hlength, hvalue]

theorem hexByte_spec : ∀ b : UInt8,
    (hexByte b).length = 2 ∧ (hexNumber (hexByte b)).toUInt8 = b :=
  forall_byte (by decide +kernel)

/-! ## One rune -/

/-- A letter that stands for a control character announces no digits. -/
theorem controlByte_letter {c : Nat} {letter : Char} (h : controlLetter? c = some letter) :
    escape? (byte letter) = none ∧ [controlByte (byte letter)] = Rune.encode c := by
  unfold controlLetter? at h
  split at h <;> cases h <;> exact ⟨rfl, rfl⟩

/-- The bytes of a code point are none that a reader of quoted text stops at, unless it is one. -/
theorem ne_of_mem_encode {c : Nat} (hc : c.isValidChar) (hquote : c ≠ 0x22) (hslash : c ≠ 0x5C)
    {b : UInt8} (hb : b ∈ Rune.encode c) : b ≠ byte '"' ∧ b ≠ byte '\\' := by
  have hvalue : b.toNat = c ∨ 0x80 ≤ b.toNat := Rune.mem_encode hc hb
  refine ⟨?_, ?_⟩ <;> rintro rfl
  · rcases hvalue with h | h
    · exact hquote h.symm
    · exact absurd h (by decide)
  · rcases hvalue with h | h
    · exact hslash h.symm
    · exact absurd h (by decide)

/-- **What a rune is shown as is read as its bytes.** -/
theorem takeQuoted_rune {t : Text} {r : Rune} (hr : r ∈ t.runes) :
    takeQuoted (r.quoted ++ rest) = prepend r.bytes (takeQuoted rest) := by
  rcases rune_cases hr with ⟨b, rfl⟩ | ⟨c, rfl, hc⟩
  · obtain ⟨hlength, hvalue⟩ := hexByte_spec b
    have hquoted : (Rune.stray b).quoted = byte '\\' :: byte 'x' :: hexByte b := List.append_nil _
    have hread : takeQuoted (byte '\\' :: byte 'x' :: (hexByte b ++ rest)) = _ :=
      takeQuoted_digits rfl hlength
    rw [hvalue] at hread
    rw [hquoted]
    exact hread
  have hlt : c < 0x110000 := by rcases hc with h | h <;> omega
  rw [Rune.quoted]
  dsimp only
  by_cases hmark : c = 0x22 ∨ c = 0x5C
  · rw [if_pos (by simpa using hmark)]
    rcases hmark with rfl | rfl <;> exact takeQuoted_letter rfl
  obtain ⟨hquote, hslash⟩ := not_or.mp hmark
  rw [if_neg (by simpa using hmark)]
  by_cases hprintable : isPrintable c = true
  · rw [if_pos hprintable]
    exact takeQuoted_plains fun b hb => ne_of_mem_encode hc hquote hslash hb
  rw [if_neg hprintable]
  cases hletter : controlLetter? c with
  | some letter =>
    obtain ⟨hnone, hbyte⟩ := controlByte_letter hletter
    rw [← hbyte]
    exact takeQuoted_letter hnone
  | none =>
    dsimp only
    by_cases hcontrol : c < 0x20 ∨ c = 0x7F
    · rw [if_pos (by simpa using hcontrol), Rune.encode, if_pos (by omega)]
      have hx : escape? (byte 'x') = some (2, fun n => [n.toUInt8]) := rfl
      exact takeQuoted_number hx (by decide) (by omega)
    rw [if_neg (by simpa using hcontrol)]
    by_cases hshort : c < 0x10000
    · rw [if_pos hshort]
      show takeQuoted (byte '\\' :: byte 'u' :: (ofNatHex 4 c ++ rest)) = _
      exact takeQuoted_number rfl (by decide) hshort
    · rw [if_neg hshort]
      show takeQuoted (byte '\\' :: byte 'U' :: (ofNatHex 8 c ++ rest)) = _
      exact takeQuoted_number rfl (by decide) (by omega)

/-! ## The whole text -/

theorem takeQuoted_runes {t : Text} (rs : List Rune) (h : ∀ r ∈ rs, r ∈ t.runes) :
    takeQuoted (rs.flatMap Rune.quoted ++ byte '"' :: rest) = some (ofRunes rs, rest) := by
  induction rs with
  | nil =>
    rw [List.flatMap_nil, List.nil_append, takeQuoted.eq_def]
    rfl
  | cons r rs ih =>
    obtain ⟨hr, hrs⟩ := List.forall_mem_cons.mp h
    rw [List.flatMap_cons, List.append_assoc, takeQuoted_rune hr, ih hrs]
    rfl

/-- **A quoted text is read as the text, whatever stands behind it.** -/
theorem takeQuoted_quoted (t rest : Text) :
    takeQuoted ((t.quoted ++ rest).drop 1) = some (t, rest) := by
  have hdrop : (t.quoted ++ rest).drop 1 = t.runes.flatMap Rune.quoted ++ byte '"' :: rest :=
    List.append_assoc _ _ rest
  rw [hdrop, takeQuoted_runes t.runes fun r hr => hr, t.ofRunes_runes]

/-- Quoted texts with something behind are the same only if the texts are, and what is behind. -/
theorem quoted_append_inj {t u rest rest' : Text} (h : t.quoted ++ rest = u.quoted ++ rest') :
    t = u ∧ rest = rest' := by
  have hread := takeQuoted_quoted t rest
  rw [h, takeQuoted_quoted] at hread
  cases hread
  exact ⟨rfl, rfl⟩

example : quoted [0x61, 0x0A, 0xFF, 0xC2, 0xAD] = "\"a\\n\\xff\\u00ad\"" := by
  decide +kernel

end Text

end TinyLang
