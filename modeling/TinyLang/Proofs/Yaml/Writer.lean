import TinyLang.Yaml.Writer
import TinyLang.Proofs.Yaml.Document

/-!
# Written scalars

Whatever style a text of one line is written in, it is a scalar that reads as that text.

* `encodeChars_charsOf?`: the characters of a text are written as its bytes.
* `exists_written`: the form that a text of one line is written in.
-/

namespace TinyLang.Yaml

/-! ## Characters of a text -/

theorem toNat_ofNat {n : Nat} (h : n.isValidChar) : (Char.ofNat n).toNat = n := by
  rw [Char.ofNat, dif_pos h]
  rfl

theorem encodeChars_of_mapM {rs : List Rune} (hrs : ∀ r ∈ rs, ∃ b u, r = Rune.first b u)
    {cs : List Char}
    (h : (rs.mapM fun r => r.code?.map Char.ofNat) = some cs) : encodeChars cs = Text.ofRunes rs := by
  induction rs generalizing cs with
  | nil =>
    cases h
    rfl
  | cons r rs ih =>
    obtain ⟨⟨b, u, hr⟩, hrs⟩ := List.forall_mem_cons.mp hrs
    rw [List.mapM_cons] at h
    obtain ⟨c, hc, h⟩ := Option.bind_eq_some_iff.mp h
    obtain ⟨cs', hcs, h⟩ := Option.bind_eq_some_iff.mp h
    cases h
    obtain ⟨n, hn, rfl⟩ := Option.map_eq_some_iff.mp hc
    obtain ⟨hencode, hvalid⟩ := Rune.encode_first (hr ▸ hn)
    rw [encodeChars_cons, ih hrs hcs, toNat_ofNat hvalid, hencode, ← hr]
    rfl

/-- The characters of a text are written as its bytes. -/
theorem encodeChars_charsOf? {t : Text} {cs : List Char} (h : charsOf? t = some cs) :
    encodeChars cs = t := by
  exact (encodeChars_of_mapM (fun r hr => Text.exists_first hr) h).trans t.ofRunes_runes

/-! ## Plain scalars -/

theorem clean_of_isPrintable {c : Char} (hc : isPrintable c = true) : Clean c := by
  simp only [isPrintable, Bool.or_eq_true, Bool.and_eq_true, beq_iff_eq, bne_iff_ne,
    decide_eq_true_eq] at hc
  refine ⟨?_, ?_⟩
  · simp only [isAllowed, Bool.or_eq_true, Bool.and_eq_true, beq_iff_eq, decide_eq_true_eq]
    omega
  · rintro rfl
    exact absurd hc (by decide)

/-- What a character allows to stand behind it. -/
theorem holdsIndicator_append {a v : List Char} {c : Char} {afterBlank : Bool}
    (h : holdsIndicator afterBlank (a ++ c :: v) = false) :
    (c = ':' → v.head?.all isBlank = false) ∧ holdsIndicator (isBlank c || isBreak c) v = false := by
  induction a generalizing afterBlank with
  | nil =>
    simp only [List.nil_append, holdsIndicator, Bool.or_eq_false_iff] at h
    refine ⟨?_, h.2⟩
    rintro rfl
    simpa using h.1.1
  | cons d a ih =>
    simp only [List.cons_append, holdsIndicator, Bool.or_eq_false_iff] at h
    exact ih h.2

/-- Words without marks between spaces. -/
theorem plainText_of {cs : List Char} (hne : cs ≠ [])
    (hchars : ∀ c ∈ cs, isBlankOrEnd c = false ∨ c = ' ')
    (hfirst : cs.head? ≠ some ' ') (hlast : cs.getLast? ≠ some ' ') {afterBlank : Bool}
    (h : holdsIndicator afterBlank cs = false) : PlainText cs := by
  induction hn : cs.length using Nat.strongRecOn generalizing cs afterBlank with
  | ind n ih =>
    subst hn
    have hword : ∀ {a v : List Char}, cs = a ++ v → a ≠ [] → (∀ c ∈ a, isBlankOrEnd c = false) →
        v.head?.all isBlank = true → PlainWord a := by
      rintro a v rfl ha hinside hv
      refine ⟨ha, hinside, fun hcolon => ?_⟩
      obtain ⟨a', ha'⟩ := List.getLast?_eq_some_iff.mp hcolon
      rw [ha', List.append_assoc] at h
      exact absurd ((holdsIndicator_append h).1 rfl) (by simp [hv])
    rcases exists_gap hchars with hall | ⟨a, k, u, rfl, ha, hu, hspace⟩
    · exact .word (hword (List.append_nil cs).symm hne hall rfl)
    · have hane : a ≠ [] := by
        rintro rfl
        exact hfirst (by simp [List.replicate_succ])
      have hbehind : holdsIndicator true u = false := by
        have heq : a ++ (List.replicate (k + 1) ' ' ++ u) =
            (a ++ List.replicate k ' ') ++ ' ' :: u := by
          simp [List.replicate_succ']
        rw [heq] at h
        exact (holdsIndicator_append h).2
      have hune : u ≠ [] := by
        rintro rfl
        exact hlast (by simp [List.replicate_succ'])
      have hfirst' : u.head? ≠ some ' ' := fun heq => hspace (hu ' ' heq)
      have hlast' : u.getLast? ≠ some ' ' := by
        rwa [← List.append_assoc, List.getLast?_append_of_ne_nil _ hune] at hlast
      have hlength : u.length < (a ++ (List.replicate (k + 1) ' ' ++ u)).length := by
        simp
        omega
      have hrest := ih u.length hlength hune
          (fun c hc => hchars c (by simp [hc])) hfirst' hlast' hbehind rfl
      refine .more (hword rfl hane ha (by simp [List.replicate_succ, isBlank])) hrest ?_
      obtain ⟨c, u', rfl⟩ := List.exists_cons_of_ne_nil hune
      rintro rfl
      simp [holdsIndicator] at hbehind

/-- A character that is written as itself and ends no line is no end of a word, or a space. -/
theorem isBlankOrEnd_of_isPrintable {c : Char} (hc : isPrintable c = true)
    (hbreak : isBreak c = false) :
    isBlankOrEnd c = false ∨ c = ' ' := by
  by_cases hspace : c = ' '
  · exact .inr hspace
  · refine .inl ?_
    have htab : c ≠ '\t' := by
      rintro rfl
      exact absurd hc (by decide)
    have hend : c ≠ endChar := by
      rintro rfl
      exact absurd hc (by decide)
    simp [isBlankOrEnd, isBlank, isBreakOrEnd, hspace, htab, hbreak, hend]

theorem startsPlain_of {cs : List Char} (hne : cs ≠ [])
    (hchars : ∀ c ∈ cs, isBlankOrEnd c = false ∨ c = ' ')
    (h : startsBadly cs = false) : StartsPlain cs := by
  obtain ⟨c, r, rfl⟩ := List.exists_cons_of_ne_nil hne
  simp only [startsBadly, Bool.or_eq_false_iff, Bool.and_eq_false_iff] at h
  obtain ⟨⟨-, hleading⟩, hmark⟩ := h
  by_cases hc : c = '-' ∨ c = '?' ∨ c = ':'
  · refine .inr ⟨hc, ?_⟩
    have hr : r.head?.all isBlank = false := by
      rcases hmark with hmark | hmark
      · rcases hc with rfl | rfl | rfl <;> simp at hmark
      · exact hmark
    cases r with
    | nil => simp at hr
    | cons d r =>
      refine (hchars d (by simp)).resolve_right ?_
      rintro rfl
      simp [isBlank] at hr
  · refine .inl ?_
    simp only [not_or] at hc
    simp [isLeadingIndicator] at hleading
    simp [Fetch.isIndicator, hc, hleading]

theorem isPrintable_of_shape {cs : List Char} (htabs : cs.contains '\t' = false)
    (hspecial : (cs.any fun c => c != '\t' && !isPrintable c) = false) : ∀ c ∈ cs,
    isPrintable c = true := by
  intro c hc
  have hne : c ≠ '\t' := by
    rintro rfl
    simp [hc] at htabs
  have hspecial := List.any_eq_false.mp hspecial c hc
  simpa [hne] using hspecial

/-- A text that may be written plain. -/
theorem readable_plain {cs : List Char} (hne : cs ≠ []) (h : (shapeOf cs).allowsPlain = true) :
    ScalarForm.Readable ⟨cs, cs, true⟩ ∧ ∀ c ∈ cs, Clean c := by
  simp only [Shape.allowsPlain, shapeOf, Bool.not_eq_true', Bool.or_eq_false_iff] at h
  obtain ⟨⟨⟨⟨⟨⟨⟨hstart, hinside⟩, hfirst, hlast⟩, -⟩, -⟩, htabs⟩, hspecial⟩, hbreaks⟩ := h
  have hprintable := isPrintable_of_shape htabs hspecial
  have hchars : ∀ c ∈ cs, isBlankOrEnd c = false ∨ c = ' ' := fun c hc =>
    isBlankOrEnd_of_isPrintable (hprintable c hc) (by simpa using List.any_eq_false.mp hbreaks c hc)
  have hfirst' : cs.head? ≠ some ' ' := fun heq => by simp [heq] at hfirst
  have hlast' : cs.getLast? ≠ some ' ' := fun heq => by simp [heq] at hlast
  exact ⟨.plain (plainText_of hne hchars hfirst' hlast' hinside) (startsPlain_of hne hchars hstart),
    fun c hc => clean_of_isPrintable (hprintable c hc)⟩

/-! ## Quoted scalars -/

/-- A character in single quotes. -/
def singleSpelling (c : Char) : List Char := if c == '\'' then [c, c] else [c]

theorem singleBody_eq (indent : Nat) {cs : List Char} (h : ∀ c ∈ cs, isBreak c = false) :
    singleBody indent false cs = encodeChars (cs.flatMap singleSpelling) := by
  induction cs with
  | nil => rfl
  | cons c cs ih =>
    obtain ⟨hc, hcs⟩ := List.forall_mem_cons.mp h
    rw [singleBody, if_neg (by simp [hc]), List.flatMap_cons, encodeChars_append, ih hcs]
    by_cases hspace : c = ' '
    · subst hspace
      rfl
    · simp [hspace, singleSpelling]

theorem readable_single {cs : List Char} (hbreak : ∀ c ∈ cs, isBreak c = false)
    (hprintable : ∀ c ∈ cs, isPrintable c = true) :
    ScalarForm.Readable ⟨'\'' :: (cs.flatMap singleSpelling ++ ['\'']), cs, false⟩ := by
  refine @ScalarForm.Readable.quoted true singleSpelling cs fun c hc => ?_
  by_cases hquote : c = '\''
  · subst hquote
    exact .inl (.doubled rfl)
  · have hself : singleSpelling c = [c] := by simp [singleSpelling, hquote]
    rcases isBlankOrEnd_of_isPrintable (hprintable c hc) (hbreak c hc) with hblank | hspace
    · exact .inl (hself ▸ .literal hblank hquote (.inl rfl))
    · exact .inr ⟨hspace, by rw [hself, hspace]⟩

/-! ## Escapes -/

/-- The characters of bytes below 128. -/
def asciiChars (t : Text) : List Char := t.map fun b => Char.ofNat b.toNat

/-- A byte that is written as itself. -/
def IsGraphic (b : UInt8) : Prop := 0x20 ≤ b.toNat ∧ b.toNat ≤ 0x7E

instance : DecidablePred IsGraphic := fun b =>
  inferInstanceAs (Decidable (0x20 ≤ b.toNat ∧ b.toNat ≤ 0x7E))

theorem IsGraphic.clean {t : Text} (h : ∀ b ∈ t, IsGraphic b) : ∀ c ∈ asciiChars t, Clean c := by
  intro c hc
  obtain ⟨b, hb, rfl⟩ := List.mem_map.mp hc
  have hgraphic := h b hb
  have hchar : (Char.ofNat b.toNat).toNat = b.toNat :=
      toNat_ofNat (.inl (by have := hgraphic.2; omega))
  refine clean_of_ascii ?_
  rw [hchar]
  exact hgraphic

theorem encodeChars_asciiChars {t : Text} (h : ∀ b ∈ t, IsGraphic b) :
    encodeChars (asciiChars t) = t := by
  induction t with
  | nil => rfl
  | cons b t ih =>
    obtain ⟨hb, ht⟩ := List.forall_mem_cons.mp h
    have hascii : b.toNat < 0x80 := Nat.lt_of_le_of_lt hb.2 (by decide)
    have hchar : (Char.ofNat b.toNat).toNat = b.toNat := toNat_ofNat (.inl (by omega))
    rw [asciiChars, List.map_cons, encodeChars_cons, hchar, Rune.encode_one hascii]
    exact congrArg _ (ih ht)

/-- The byte of a hexadecimal digit. -/
def hexByte (d : Nat) : UInt8 :=
  let b := Text.byte d.digitChar
  if Text.byte 'a' ≤ b then b - 32 else b

theorem hexByte_spec : ∀ d < 16, Scan.hexValue? (Char.ofNat (hexByte d).toNat) = some d ∧
    0x20 ≤ (hexByte d).toNat ∧ (hexByte d).toNat ≤ 0x7E := by
  decide

/-- The digits of a number that has a place for each of them. -/
theorem exists_hexUpper {width n : Nat} (hwidth : 0 < width) (hn : n < 16 ^ width) :
    ∃ ds : List Nat, ds.length = width ∧ (∀ d ∈ ds, d < 16) ∧ hexUpper width n = ds.map hexByte ∧
      ds.foldl (fun m d => m * 16 + d) 0 = n := by
  obtain ⟨ds, hlength, hds, hdigits, hvalue⟩ := Text.exists_ofNatHex hwidth hn
  refine ⟨ds, hlength, hds, ?_, hvalue⟩
  rw [hexUpper, hdigits, List.map_map]
  rfl

theorem hexNumber?_digits {ds : List Nat} (hds : ∀ d ∈ ds, d < 16) :
    Scan.hexNumber? (asciiChars (ds.map hexByte)) = some (ds.foldl (fun m d => m * 16 + d) 0) := by
  have hfold : ∀ n, (asciiChars (ds.map hexByte)).foldl
      (fun n? c => do return (← n?) * 16 + (← Scan.hexValue? c)) (some n) =
        some (ds.foldl (fun m d => m * 16 + d) n) := by
    induction ds with
    | nil => exact fun n => rfl
    | cons d ds ih =>
      intro n
      obtain ⟨hd, hds⟩ := List.forall_mem_cons.mp hds
      simp only [asciiChars, List.map_cons, List.foldl_cons, (hexByte_spec d hd).1] at ih ⊢
      exact ih hds (n * 16 + d)
  exact hfold 0

/-- A code point in digits behind a letter. -/
theorem spells_hexUpper {c : Char} {width : Nat} {letter : Char} (hwidth : 0 < width)
    (hc : c.toNat < 16 ^ width) (hletter : Scan.escapeDigits? letter = some width) :
    Spells false c ('\\' :: letter :: asciiChars (hexUpper width c.toNat)) ∧
      ∀ b ∈ hexUpper width c.toNat, IsGraphic b := by
  obtain ⟨ds, hlength, hds, hupper, hvalue⟩ := exists_hexUpper hwidth hc
  rw [hupper]
  refine ⟨.coded rfl ?_ ?_, fun b hb => ?_⟩
  · simpa [asciiChars, hlength] using hletter
  · rw [hexNumber?_digits hds, hvalue]
  · obtain ⟨d, hd, rfl⟩ := List.mem_map.mp hb
    exact (hexByte_spec d (hds d hd)).2

/-- A backslash and what is written behind it stand for the character. -/
theorem spells_escape (c : Char) :
    Spells false c ('\\' :: asciiChars (escapeText c)) ∧ ∀ b ∈ escapeText c, IsGraphic b := by
  unfold escapeText
  split
  any_goals exact ⟨.escaped rfl (by decide) (by decide), by decide +kernel⟩
  dsimp only
  have hletter : ∀ letter : Text, letter.length = 1 → (∀ b ∈ letter, IsGraphic b) →
      ∀ {width}, Scan.escapeDigits? (nextOf (asciiChars letter)) = some width → 0 < width →
        c.toNat < 16 ^ width →
          Spells false c ('\\' :: asciiChars (letter ++ hexUpper width c.toNat)) ∧
          ∀ b ∈ letter ++ hexUpper width c.toNat, IsGraphic b := by
    intro letter hlength hgraphic width hdigits hwidth hc
    obtain ⟨b, rfl⟩ := List.length_eq_one_iff.mp hlength
    obtain ⟨hspells, hupper⟩ := spells_hexUpper hwidth hc hdigits
    refine ⟨hspells, fun b' hb' => ?_⟩
    rcases List.mem_append.mp hb' with hb' | hb'
    · exact hgraphic b' hb'
    · exact hupper b' hb'
  have hlt := toNat_char_lt c
  split
  · exact hletter "x" rfl (by decide +kernel) rfl (by decide) (by omega)
  split
  · exact hletter "u" rfl (by decide +kernel) rfl (by decide) (by omega)
  · exact hletter "U" rfl (by decide +kernel) rfl (by decide) (by omega)

/-- A character in double quotes. -/
def doubleSpelling (marked : Bool) (c : Char) : List Char :=
  if marked || !isPrintable c || isBreak c || c == '"' || c == '\\' then '\\' :: asciiChars
    (escapeText c)
  else [c]

theorem encodeChars_doubleSpelling (marked : Bool) (c : Char) :
    encodeChars (doubleSpelling marked c) =
      if marked || !isPrintable c || isBreak c || c == '"' || c == '\\' then
        ("\\" : Text) ++ escapeText c
      else encodeChars [c] := by
  unfold doubleSpelling
  split
  · rw [encodeChars_cons, encodeChars_asciiChars (spells_escape c).2]
    rfl
  · rfl

theorem doubleQuoted_eq (cs : List Char) :
    doubleQuoted cs =
      encodeChars ('"' :: (cs.flatMap (doubleSpelling (cs.head? == some '\ufeff')) ++ ['"'])) := by
  have hbody : encodeChars (cs.flatMap (doubleSpelling (cs.head? == some '\ufeff'))) =
      cs.flatMap fun c => encodeChars (doubleSpelling (cs.head? == some '\ufeff') c) :=
    List.flatMap_assoc
  rw [encodeChars_cons, encodeChars_append, hbody]
  simp only [encodeChars_doubleSpelling]
  rfl

theorem spells_doubleSpelling (marked : Bool) (c : Char) :
    SpellsOrSpace false c (doubleSpelling marked c) ∧ ∀ d ∈ doubleSpelling marked c, Clean d := by
  unfold doubleSpelling
  split
  · obtain ⟨hspells, hgraphic⟩ := spells_escape c
    refine ⟨.inl hspells, fun d hd => ?_⟩
    rcases List.mem_cons.mp hd with rfl | hd
    · exact clean_of_ascii (by decide)
    · exact IsGraphic.clean hgraphic d hd
  · rename_i h
    simp only [Bool.or_eq_true, not_or, Bool.not_eq_true, Bool.not_eq_false',
      beq_eq_false_iff_ne] at h
    obtain ⟨⟨⟨⟨-, hprintable⟩, hbreak⟩, hquote⟩, hslash⟩ := h
    refine ⟨?_, fun d hd => ?_⟩
    · rcases isBlankOrEnd_of_isPrintable hprintable hbreak with hblank | rfl
      · exact .inl (.literal hblank hquote (.inr hslash))
      · exact .inr ⟨rfl, rfl⟩
    · obtain rfl := List.mem_singleton.mp hd
      exact clean_of_isPrintable hprintable

/-- A text of one line. -/
def OneLine (cs : List Char) : Prop := ∀ c ∈ cs, c ≠ '\n' ∧ c ≠ '\u2028' ∧ c ≠ '\u2029'

instance : DecidablePred OneLine := fun cs =>
  decidable_of_iff (cs.all (fun c => c ≠ '\n' ∧ c ≠ '\u2028' ∧ c ≠ '\u2029') = true) (by simp [OneLine])

theorem isBreak_of_oneLine {c : Char} (h : c ≠ '\n' ∧ c ≠ '\u2028' ∧ c ≠ '\u2029')
    (hprintable : isPrintable c = true) : isBreak c = false := by
  have hreturn : c ≠ '\r' := by
    rintro rfl
    exact absurd hprintable (by decide)
  have hnext : c ≠ '\u0085' := by
    rintro rfl
    exact absurd hprintable (by decide)
  simp [isBreak, h, hreturn, hnext]

/-- A scalar form of characters that is written as these bytes. -/
structure ScalarForm.Writes (v : ScalarForm) (cs : List Char) (t : Text) : Prop where
  readable : v.Readable
  clean : ∀ c ∈ v.source, Clean c
  text : v.text = cs
  source : t = encodeChars (v.source ++ ['\n'])

theorem encodeChars_line (cs : List Char) : encodeChars (cs ++ ['\n']) = encodeChars cs ++ "\n" :=
  encodeChars_append cs ['\n']

/-- Any characters can be written in double quotes. -/
theorem exists_double (cs : List Char) :
    ∃ v : ScalarForm, v.Writes cs (doubleQuoted cs ++ "\n") ∧ v.plain = false := by
  refine ⟨_, ⟨@ScalarForm.Readable.quoted false (doubleSpelling (cs.head? == some '\ufeff')) cs
    fun c _ => (spells_doubleSpelling _ c).1, ?_, rfl, ?_⟩, rfl⟩
  · intro c hc
    simp only [Scan.quoteOf, List.mem_cons, List.mem_append, List.mem_flatMap] at hc
    rcases hc with rfl | ⟨d, -, hd⟩ | rfl | hc
    · exact clean_of_ascii (by decide)
    · exact (spells_doubleSpelling _ d).2 c hd
    · exact clean_of_ascii (by decide)
    · cases hc
  · rw [encodeChars_line, doubleQuoted_eq]
    rfl

theorem exists_single (indent : Nat) {cs : List Char} (hcs : OneLine cs)
    (h : (shapeOf cs).allowsSingle = true) :
    ∃ v : ScalarForm, v.Writes cs (singleQuoted indent cs ++ "\n") ∧ v.plain = false := by
  simp only [Shape.allowsSingle, shapeOf, Bool.not_eq_true', Bool.or_eq_false_iff] at h
  obtain ⟨⟨-, htabs⟩, hspecial⟩ := h
  have hprintable := isPrintable_of_shape htabs hspecial
  have hbreak : ∀ c ∈ cs, isBreak c = false :=
      fun c hc => isBreak_of_oneLine (hcs c hc) (hprintable c hc)
  refine ⟨_, ⟨readable_single hbreak hprintable, ?_, rfl, ?_⟩, rfl⟩
  · intro c hc
    simp only [List.mem_cons, List.mem_append, List.mem_flatMap] at hc
    rcases hc with rfl | ⟨d, hd, hc⟩ | rfl | hc
    · exact clean_of_ascii (by decide)
    · have hself : c = d := by
        unfold singleSpelling at hc
        split at hc <;> simpa using hc
      exact hself ▸ clean_of_isPrintable (hprintable d hd)
    · exact clean_of_ascii (by decide)
    · cases hc
  · rw [encodeChars_line, encodeChars_cons, encodeChars_append, singleQuoted,
      singleBody_eq indent hbreak]
    rfl

/-- **A text of one line is written as a scalar that reads as that text.** -/
theorem exists_written {t : Text} {cs : List Char} (ht : charsOf? t = some cs) (hcs : OneLine cs)
    (indent : Nat) :
    ∃ v : ScalarForm, v.Writes cs (writeText indent t) ∧ (v.plain = true → readsAsText t = true) := by
  have hquoted : ∀ {t' : Text}, (∃ v : ScalarForm, v.Writes cs t' ∧ v.plain = false) →
      ∃ v : ScalarForm, v.Writes cs t' ∧ (v.plain = true → readsAsText t = true) := by
    rintro t' ⟨v, hv, hplain⟩
    exact ⟨v, hv, fun h => by simp [hplain] at h⟩
  have hnewline : cs.contains '\n' = false := by
    simpa using fun h => (hcs '\n' h).1 rfl
  rw [writeText, ht]
  dsimp only
  rw [writeChars, hnewline, if_neg (by simp)]
  by_cases hreads : readsAsText t = true
  · have hne : cs ≠ [] := by
      rintro rfl
      rw [← encodeChars_charsOf? ht] at hreads
      exact absurd hreads (by decide)
    rw [if_neg (by simp [hreads])]
    by_cases hplain : (shapeOf cs).allowsPlain = true
    · obtain ⟨hreadable, hclean⟩ := readable_plain hne hplain
      rw [if_pos hplain]
      exact ⟨_, ⟨hreadable, hclean, rfl, (encodeChars_line cs).symm⟩, fun _ => hreads⟩
    · rw [if_neg hplain]
      by_cases hsingle : (shapeOf cs).allowsSingle = true
      · rw [if_pos hsingle]
        exact hquoted (exists_single indent hcs hsingle)
      · rw [if_neg hsingle]
        exact hquoted (exists_double cs)
  · rw [if_pos (by simpa using hreads)]
    exact hquoted (exists_double cs)

end TinyLang.Yaml
