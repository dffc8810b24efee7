import TinyLang.Proofs.Yaml.Node

/-!
# Reading a nested mapping

From the bytes of a written mapping to the nodes of its document: fields with scalars, and behind them
one key with an indented mapping of such fields.

* `readDocument_nested`: the stream of such lines is read as the document of the same entries.
-/

namespace TinyLang.Yaml

/-- A key with a scalar, as they are written. -/
structure Field where
  key : List Char
  value : ScalarForm

namespace Field

/-- The line of a field at a column. -/
def line (column : Nat) (f : Field) : Line := ⟨column, f.key, some f.value⟩

/-- What a field reads as. -/
def entry (f : Field) : Entry := ⟨encodeChars f.key, encodeChars f.value.text, f.value.plain⟩

end Field

/-- A field whose line can be read. -/
structure Field.Readable (f : Field) : Prop where
  key : KeyWord f.key
  value : f.value.Readable
  clean : ∀ c ∈ f.value.source, Clean c

/-- The lines of fields, and of a key with the inner fields behind it. -/
def nestedLines (outer : List Field) (name : List Char) (inner : List Field) : List Line :=
  outer.map (Field.line 0) ++ ⟨0, name, none⟩ :: inner.map (Field.line 4)

/-! ## Lines -/

theorem toNat_lt_of_isAlpha {c : Char} (hc : c.isAlpha = true) : 0x20 ≤ c.toNat ∧ c.toNat ≤ 0x7E := by
  have hletter : (c.isUpper || c.isLower) = true := hc
  have hbetween : ∀ {low high : Char}, low.val ≤ c.val → c.val ≤ high.val →
      low.toNat ≤ c.toNat ∧ c.toNat ≤ high.toNat :=
    fun hlow hhigh => ⟨UInt32.le_iff_toNat_le.mp hlow, UInt32.le_iff_toNat_le.mp hhigh⟩
  rcases Bool.or_eq_true_iff.mp hletter with hupper | hlower
  · obtain ⟨hlow, hhigh⟩ := hbetween (of_decide_eq_true hupper).1 (of_decide_eq_true hupper).2
    exact ⟨Nat.le_trans (by decide) hlow, Nat.le_trans hhigh (by decide)⟩
  · obtain ⟨hge, hle⟩ := Bool.and_eq_true_iff.mp hlower
    obtain ⟨hlow, hhigh⟩ := hbetween (of_decide_eq_true hge) (of_decide_eq_true hle)
    exact ⟨Nat.le_trans (by decide) hlow, Nat.le_trans hhigh (by decide)⟩

theorem clean_of_ascii {c : Char} (hc : 0x20 ≤ c.toNat ∧ c.toNat ≤ 0x7E) : Clean c := by
  refine ⟨by simp [isAllowed, hc], ?_⟩
  rintro rfl
  exact absurd hc.2 (by decide)

theorem KeyWord.clean {key : List Char} (h : KeyWord key) : ∀ c ∈ key, Clean c :=
  fun c hc => clean_of_ascii (toNat_lt_of_isAlpha (h.letters c hc))

theorem clean_textOf {ls : List Line}
    (h : ∀ l ∈ ls, KeyWord l.key ∧ ∀ v ∈ l.value, ∀ c ∈ v.source, Clean c) :
    ∀ c ∈ textOf ls, Clean c := by
  have hspace : Clean ' ' := clean_of_ascii (by decide)
  have hcolon : Clean ':' := clean_of_ascii (by decide)
  have hnewline : Clean '\n' := ⟨by decide, by decide⟩
  induction ls with
  | nil => simp [textOf]
  | cons l ls ih =>
    obtain ⟨⟨hkey, hvalue⟩, hls⟩ := List.forall_mem_cons.mp h
    have hbehind : ∀ c ∈ behindColon l.value (textOf ls), Clean c := by
      cases hv : l.value with
      | none => simpa [behindColon] using ⟨hnewline, ih hls⟩
      | some v =>
        intro c hc
        simp only [behindColon, List.mem_cons, List.mem_append] at hc
        rcases hc with rfl | hc | rfl | hc
        · exact hspace
        · exact hvalue v hv c hc
        · exact hnewline
        · exact ih hls c hc
    intro c hc
    simp only [textOf, List.mem_append, List.mem_replicate, List.mem_cons] at hc
    rcases hc with ⟨-, rfl⟩ | hc | rfl | hc
    · exact hspace
    · exact hkey.clean c hc
    · exact hcolon
    · exact hbehind c hc

theorem length_le_textOf (ls : List Line) : ls.length ≤ (textOf ls).length := by
  induction ls with
  | nil => exact Nat.le_refl 0
  | cons l ls ih =>
    have hbehind : (textOf ls).length ≤ (behindColon l.value (textOf ls)).length := by
      cases l.value with
      | none => simp [behindColon]
      | some v =>
        simp only [behindColon, List.length_cons, List.length_append]
        omega
    simp only [textOf, List.length_append, List.length_cons]
    omega

theorem Layout.fields {fs : List Field} {ls : List Line} {column : Nat} {cols : List Nat}
    (hfs : ∀ f ∈ fs, f.Readable) (hdepth : cols.length + 1 < Fetch.depthLimit)
    (hls : Layout (column :: cols) ls) (hnext : firstColumn ls ≤ column) :
    Layout (column :: cols) (fs.map (Field.line column) ++ ls) := by
  induction fs with
  | nil => exact hls
  | cons f fs ih =>
    obtain ⟨hf, hfs⟩ := List.forall_mem_cons.mp hfs
    refine .cons ⟨hf.key, by simpa [Field.line] using hf.value⟩
      (by simp [Field.line]) hdepth (fun _ => ?_) ?_
    · cases fs with
      | nil => exact hnext
      | cons f' fs => exact Nat.le_refl _
    · simpa [enterColumn, Field.line] using ih hfs

theorem kindsFrom_fields (fs : List Field) (ls : List Line) (column : Nat) (cols : List Nat) :
    kindsFrom (column :: cols) (fs.map (Field.line column) ++ ls) =
      (fs.map Field.entry).flatMap Entry.kinds ++ kindsFrom (column :: cols) ls := by
  induction fs with
  | nil => rfl
  | cons f fs ih =>
    simp only [List.map_cons, List.cons_append, kindsFrom, enterColumn, Field.line] at ih ⊢
    simp [ih, Line.kinds, Entry.kinds, Field.entry, ScalarForm.kind]

/-- The first line of a mapping starts it. -/
theorem Layout.enter {l : Line} {ls : List Line} {cols : List Nat}
    (h : Layout (l.column :: cols) (l :: ls))
    (hcols : ∀ c ∈ cols.head?, c < l.column) : Layout cols (l :: ls) := by
  have hne : cols.head? ≠ some l.column := fun heq => Nat.lt_irrefl _ (hcols _ heq)
  cases h with
  | cons hl hcolumn hdepth hnext hls =>
    refine .cons hl (fun c hc => Nat.le_of_lt (hcols c hc)) (Nat.lt_of_succ_lt hdepth) hnext ?_
    simpa [enterColumn, hne] using hls

theorem kindsFrom_enter (l : Line) (ls : List Line) {cols : List Nat}
    (hne : cols.head? ≠ some l.column) :
    kindsFrom cols (l :: ls) = .blockMappingStart :: kindsFrom (l.column :: cols) (l :: ls) := by
  simp [kindsFrom, enterColumn, hne]

theorem Layout.nested {outer inner : List Field} {name : List Char}
    (houter : ∀ f ∈ outer, f.Readable) (hname : KeyWord name) (hinner : ∀ f ∈ inner, f.Readable) :
    Layout [] (nestedLines outer name inner) := by
  have hinside : Layout [0] (inner.map (Field.line 4)) := by
    cases inner with
    | nil => exact .nil
    | cons f inner =>
      have hend : Layout [4, 0] [] := .nil
      have hfields := Layout.fields hinner (by decide) hend (by decide)
      rw [List.append_nil] at hfields
      exact hfields.enter (by simp [Field.line])
  have hlast : Layout [0] (⟨0, name, none⟩ :: inner.map (Field.line 4)) :=
    .cons ⟨hname, by simp⟩ (by simp) (by decide) (by simp) hinside
  have hfields := Layout.fields houter (by decide) hlast (Nat.le_refl 0)
  cases outer with
  | nil => exact hfields.enter (by simp)
  | cons f outer => exact hfields.enter (by simp)

theorem kindsFrom_nested (outer : List Field) (name : List Char) {inner : List Field}
    (hinner : inner ≠ []) :
    kindsFrom [] (nestedLines outer name inner) =
      nestedKinds (outer.map Field.entry) (encodeChars name)
        (inner.map Field.entry) ++ [.streamEnd] := by
  have hinside : kindsFrom [0] (inner.map (Field.line 4)) =
      .blockMappingStart :: ((inner.map Field.entry).flatMap Entry.kinds ++
        [.blockEnd, .blockEnd, .streamEnd]) := by
    obtain ⟨f, inner, rfl⟩ := List.exists_cons_of_ne_nil hinner
    have hfields := kindsFrom_fields (f :: inner) [] 4 [0]
    rw [List.append_nil] at hfields
    rw [List.map_cons, kindsFrom_enter (f.line 4) _ (by simp [Field.line])]
    exact congrArg _ hfields
  have hlast : kindsFrom [0] (⟨0, name, none⟩ :: inner.map (Field.line 4)) =
      .key :: .scalar (encodeChars name) true :: .value :: kindsFrom [0]
        (inner.map (Field.line 4)) := rfl
  have hfields := kindsFrom_fields outer (⟨0, name, none⟩ :: inner.map (Field.line 4)) 0 []
  have henter : kindsFrom [] (nestedLines outer name inner) =
      .blockMappingStart :: kindsFrom [0] (nestedLines outer name inner) := by
    cases outer with
    | nil => exact kindsFrom_enter _ _ (by simp)
    | cons f outer => exact kindsFrom_enter (f.line 0) _ (by simp)
  rw [henter, nestedLines, hfields, hlast, hinside]
  simp [nestedKinds]

/-! ## The start of a stream -/

theorem length_le_encodeChars (cs : List Char) : cs.length ≤ (encodeChars cs).length := by
  refine length_le_flatMap fun c _ hnil => ?_
  obtain ⟨b, tail, bits, hencode, -⟩ := encode_spec (toNat_char_lt c)
  rw [hencode] at hnil
  cases hnil

/-- A stream whose first character is written in one byte announces no other encoding. -/
theorem Encoding.ofStart_ascii {b : UInt8} (hb : b < 0x80) (t : Text) :
    ofStart (b :: t) = (.utf8, 0) := by
  unfold ofStart
  split
  · cases ‹_ :: _ = _›
    exact absurd hb (by decide)
  · cases ‹_ :: _ = _›
    exact absurd hb (by decide)
  · cases ‹_ :: _ = _›
    exact absurd hb (by decide)
  · rfl

theorem Encoding.ofStart_encodeChars {cs : List Char} (hfirst : (nextOf cs).toNat < 0x80) :
    ofStart (encodeChars cs) = (.utf8, 0) := by
  cases cs with
  | nil => rfl
  | cons c cs =>
    have hc : c.toNat < 0x80 := hfirst
    rw [encodeChars_cons, Rune.encode, if_pos hc]
    refine ofStart_ascii ?_ _
    rw [UInt8.lt_iff_toNat_lt, toNat_toUInt8 (by omega)]
    exact hc

theorem Input.Shows.start {cs : List Char} (hclean : ∀ c ∈ cs, Clean c)
    (hfirst : (nextOf cs).toNat < 0x80) :
    (Input.start (encodeChars cs)).Shows (encodeChars cs).length 0 .start cs := by
  rw [Input.start, Encoding.ofStart_encodeChars hfirst]
  exact { mark := rfl, encoding := rfl, overdue := rfl, first := by simp [endChar], clean := hclean
          total := rfl, fits := length_le_encodeChars cs
          ahead := ⟨[], cs, 0, rfl, rfl, rfl, .inr ⟨Nat.le_refl 0, rfl⟩⟩ }

theorem Tokenizer.Delivers.start {ls : List Line} (hlayout : Layout [] ls)
    (hcolumn : firstColumn ls = 0) (hclean : ∀ c ∈ textOf ls, Clean c) :
    (Tokenizer.start (encodeChars (textOf ls))).Delivers (encodeChars (textOf ls)).length
      (.streamStart :: kindsFrom [] ls) := by
  have hfirst : (nextOf (textOf ls)).toNat < 0x80 := by
    rw [textOf_eq, hcolumn]
    cases hlayout with
    | nil => decide
    | cons hl => exact Nat.lt_of_le_of_lt (toNat_lt_of_isAlpha (hl.next _).1).2 (by decide)
  exact ⟨.fresh rfl ⟨rfl, ⟨0, .start, rfl⟩, by simp [Tokenizer.start]⟩ hlayout hcolumn rfl rfl
    (.start hclean hfirst), by simp [Tokenizer.start]⟩

/-- **A nested mapping is read back.** -/
theorem readDocument_nested {outer inner : List Field} {name : List Char}
    (houter : ∀ f ∈ outer, f.Readable) (hname : KeyWord name) (hinner : ∀ f ∈ inner, f.Readable)
    (hne : inner ≠ []) :
    ∃ d, readDocument (encodeChars (textOf (nestedLines outer name inner))) = .ok d ∧
      d.Nested (outer.map Field.entry) (encodeChars name) (inner.map Field.entry) := by
  have hlayout := Layout.nested houter hname hinner
  have hclean : ∀ c ∈ textOf (nestedLines outer name inner), Clean c := by
    refine clean_textOf fun l hl => ?_
    simp only [nestedLines, List.mem_append, List.mem_map, List.mem_cons] at hl
    rcases hl with ⟨f, hf, rfl⟩ | rfl | ⟨f, hf, rfl⟩
    · exact ⟨(houter f hf).key, by simpa [Field.line] using (houter f hf).clean⟩
    · exact ⟨hname, by simp⟩
    · exact ⟨(hinner f hf).key, by simpa [Field.line] using (hinner f hf).clean⟩
  have hcolumn : firstColumn (nestedLines outer name inner) = 0 := by
    cases outer <;> rfl
  have htokens := Tokenizer.Delivers.start hlayout hcolumn hclean
  rw [kindsFrom_nested outer name hne] at htokens
  have h : (Reading.start (encodeChars (textOf (nestedLines outer name inner)))).At _
      (.documentNode false)
    [.documentEnd] _ := ⟨htokens, rfl, rfl⟩
  obtain ⟨r₁, hstart, h₁⟩ := h.documentStart_run
  have hsize := (length_le_textOf (nestedLines outer name inner)).trans (length_le_encodeChars _)
  have hlength : (nestedLines outer name inner).length = outer.length + inner.length + 1 := by
    simp [nestedLines]
    omega
  have hfuel : 2 * (outer.map Field.entry).length + 2 * (inner.map Field.entry).length + 5 ≤
      8 * r₁.tokens.input.size + 8 := by
    rw [h₁.tokens.pending.input_eq.1, List.length_map, List.length_map]
    omega
  obtain ⟨d, r₂, hnodes, hd, h₂⟩ := h₁.nodes_nested hfuel
  obtain ⟨r₃, hend, h₃⟩ := h₂.documentEnd_run
  have hdocument : Read.document.run (.start (encodeChars (textOf (nestedLines outer name inner)))) =
      .ok (some d, r₃) := by
    rw [Read.document, run_bind_ok (Reading.At.checked_run hstart h₁), if_pos rfl, run_get_bind,
      run_bind_ok hnodes, run_bind_ok (Reading.At.checked_run hend h₃)]
    rfl
  refine ⟨d, ?_, hd⟩
  rw [readDocument, hdocument]
  rfl

end TinyLang.Yaml
