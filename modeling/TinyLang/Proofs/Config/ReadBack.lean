import TinyLang.Config.Reader
import TinyLang.Proofs.Yaml.Decode
import TinyLang.Proofs.Yaml.Value
import TinyLang.Proofs.Yaml.Writer

/-!
# A written configuration is read back

The document of a configuration is a mapping of texts, and behind the key `run` a mapping of its own.
It is read back as the same configuration, whatever its texts look like, if they are of one line.

* `Config.ofYaml_toYaml`: reading what was written.
-/

namespace TinyLang

open Yaml

/-- A text that is UTF-8 and of one line. -/
def Text.IsLine (t : Text) : Prop := ∃ cs, charsOf? t = some cs ∧ OneLine cs

instance : DecidablePred Text.IsLine := fun t =>
  decidable_of_iff (∃ cs ∈ charsOf? t, OneLine cs) (by simp [Text.IsLine])

namespace Config

/-! ## Lines of texts -/

/-- The fields of texts as they are written at a column. -/
structure FieldsOf (column : Nat) (texts : List (List Char × Text)) (fs : List Field) : Prop where
  readable : ∀ f ∈ fs, f.Readable
  entries : (fs.map Field.entry).map (fun e => (e.key, e.text)) =
    texts.map fun (key, t) => (encodeChars key, t)
  tags : ∀ e ∈ fs.map Field.entry, IsTextTag (ownTag e.text e.plain)
  written : ∀ ls, encodeChars (textOf (fs.map (Field.line column) ++ ls)) =
    texts.flatMap (fun (key, t) => textLine column (encodeChars key) t) ++ encodeChars (textOf ls)

theorem FieldsOf.keys {column : Nat} {texts : List (List Char × Text)} {fs : List Field}
    (h : FieldsOf column texts fs) :
    (fs.map Field.entry).map Yaml.Entry.key = texts.map fun (key, _) => encodeChars key := by
  have hfst := congrArg (List.map Prod.fst) h.entries
  simp only [List.map_map] at hfst ⊢
  exact hfst

theorem encodeChars_spaces (n : Nat) : encodeChars (List.replicate n ' ') = List.replicate n 32 := by
  induction n with
  | zero => rfl
  | succ n ih =>
    rw [List.replicate_succ, encodeChars_cons, ih]
    rfl

theorem isTextTag_ownTag {t : Text} {plain : Bool} (h : plain = true → readsAsText t = true) :
    IsTextTag (ownTag t plain) := by
  have hstr : IsTextTag strTag := ⟨by decide, by decide⟩
  have hmerge : IsTextTag mergeTag := ⟨by decide, by decide⟩
  cases plain with
  | false => exact hstr
  | true =>
    have htag : (plainValue true t).tag = strTag := by
      have hreads := h rfl
      simp only [readsAsText, Bool.and_eq_true, decide_eq_true_eq] at hreads
      exact hreads.1.1
    rw [ownTag, if_neg (by simp), htag]
    split
    · exact hmerge
    · exact hstr

theorem encodeChars_textOf (f : Field) (column : Nat) (ls : List Yaml.Line) :
    encodeChars (textOf (f.line column :: ls)) = List.replicate column 32 ++ (encodeChars f.key ++
      ((": " : Text) ++ (encodeChars (f.value.source ++ ['\n']) ++ encodeChars (textOf ls)))) := by
  have hline : textOf (f.line column :: ls) = List.replicate column ' ' ++ (f.key ++ ([':', ' '] ++
      ((f.value.source ++ ['\n']) ++ textOf ls))) := by
    simp [textOf, Field.line, behindColon]
  rw [hline, encodeChars_append, encodeChars_append, encodeChars_append, encodeChars_append,
    encodeChars_spaces]
  rfl

theorem exists_fields {texts : List (List Char × Text)}
    (h : ∀ p ∈ texts, KeyWord p.1 ∧ p.2.IsLine) (column : Nat) : ∃ fs, FieldsOf column texts fs := by
  induction texts with
  | nil => exact ⟨[], by simp, rfl, by simp, fun ls => rfl⟩
  | cons p texts ih =>
    obtain ⟨⟨hkey, cs, ht, hcs⟩, htexts⟩ := List.forall_mem_cons.mp h
    obtain ⟨fs, hreadable, hentries, htags, hwritten⟩ := ih htexts
    obtain ⟨v, hv, hplain⟩ := exists_written ht hcs (column + 4)
    have htext : encodeChars v.text = p.2 := by rw [hv.text, encodeChars_charsOf? ht]
    refine ⟨⟨p.1, v⟩ :: fs, ?_, ?_, ?_, fun ls => ?_⟩
    · exact List.forall_mem_cons.mpr ⟨⟨hkey, hv.readable, hv.clean⟩, hreadable⟩
    · simp [Field.entry, htext, ← hentries]
    · refine List.forall_mem_cons.mpr ⟨?_, htags⟩
      simp only [Field.entry, htext]
      exact isTextTag_ownTag hplain
    · rw [List.map_cons, List.cons_append, encodeChars_textOf, hwritten, ← hv.source,
        List.flatMap_cons]
      simp only [textLine, List.append_assoc]

/-! ## Fields of records -/

open Decode

/-- A text as the value of a field. -/
def setText (c : Config) (key t : Text) : Config :=
  if key = "name" then { c with name := t }
  else if key = "version" then { c with version := t }
  else if key = "main" then { c with main := t }
  else if key = "author" then { c with author := t }
  else { c with tli := t }

theorem schema_text {d : Document} (fuel : Nat) (c : Config) {key t : Text} (hkey : key ≠ "run")
    {id : Nat} (ht : d.TextAt id t) : Gives d ((schema fuel).set c key id) (c.setText key t) := by
  unfold schema setText
  dsimp only
  rw [if_neg hkey]
  refine (Gives.text ht).bind ?_
  split
  · exact .pure _
  split
  · exact .pure _
  split
  · exact .pure _
  split
  · exact .pure _
  · exact .pure _

/-! ## Options -/

/-- How a truth value is written. -/
def boolText (b : Bool) : Text := if b then "true" else "false"

theorem runSchema_trace {d : Document} (r : RunOptions) (b : Bool) {id line : Nat}
    (hn : d.node id = .scalar (ownTag (boolText b) true) (boolText b) line) :
    Gives d (runSchema.set r "trace" id) { r with trace := b } := by
  have hvalue : valueOf (ownTag (boolText b) true) (boolText b) = .ok (.bool b) := by
    cases b <;> rfl
  have htag : ownTag (boolText b) true ≠ binaryTag := by
    cases b <;> decide
  have hbool : Gives d (Decode.bool id) (some b) := .simple hn htag hvalue (by simp) rfl
  exact hbool.bind (.pure _)

theorem ownTag_ofInt {n : Int} (hlow : -0x8000000000000000 ≤ n) (hhigh : n < 0x8000000000000000) :
    ownTag (Text.ofInt n) true = intTag := by
  have hmerge : Text.ofInt n ≠ "<<" := by
    intro heq
    have hbytes := (isIntegerByte_ofInt n).1
    rw [heq] at hbytes
    exact absurd hbytes (by decide)
  rw [ownTag, if_neg (by simp), if_neg hmerge, plainValue_ofInt true hlow hhigh]
  rfl

theorem runSchema_maxSteps {d : Document} (r : RunOptions) {n : Int} (hlow : -0x8000000000000000 ≤ n)
    (hhigh : n < 0x8000000000000000) {id line : Nat}
    (hn : d.node id = .scalar (ownTag (Text.ofInt n) true) (Text.ofInt n) line) :
    Gives d (runSchema.set r "maxSteps" id) { r with maxSteps := n } := by
  rw [ownTag_ofInt hlow hhigh] at hn
  have hvalue : valueOf intTag (Text.ofInt n) = .ok (.int n) := by
    rw [valueOf, if_pos (by decide), plainValue_ofInt _ hlow hhigh]
    rfl
  have hint : Gives d (Decode.int id) (some n) :=
    .simple hn (by decide) hvalue (by simp) (by simp [hhigh])
  exact hint.bind (.pure _)

theorem runSchema_prompt {d : Document} (r : RunOptions) {t : Text} {id : Nat} (ht : d.TextAt id t) :
    Gives d (runSchema.set r "prompt" id) { r with prompt := t } :=
  (Gives.text ht).bind (.pure _)

/-! ## The document -/

/-- The texts of a configuration, as they are written. -/
def texts (c : Config) : List (List Char × Text) :=
  [("name".toList, c.name), ("version".toList, c.version), ("main".toList, c.main),
    ("author".toList, c.author)] ++ if c.tli.isEmpty then [] else [("tli".toList, c.tli)]

/-- The prompt, if there is one. -/
def promptTexts (r : RunOptions) : List (List Char × Text) :=
  if r.prompt.isEmpty then [] else [("prompt".toList, r.prompt)]

/-- A field with a plain scalar of ASCII characters. -/
def wordField (key : String) (t : Text) : Field := ⟨key.toList, ⟨asciiChars t, asciiChars t, true⟩⟩

/-- The options that are always written. -/
def optionFields (r : RunOptions) : List Field :=
  [wordField "trace" (boolText r.trace), wordField "maxSteps" (Text.ofInt r.maxSteps)]

theorem integerByte_spec : ∀ b : UInt8, isIntegerByte b = true →
    IsGraphic b ∧ isBlankOrEnd (Char.ofNat b.toNat) = false ∧ Char.ofNat b.toNat ≠ ':' :=
  Text.forall_byte (by decide +kernel)

theorem isIndicator_of_isDigit : ∀ b : UInt8, Text.isDigit b = true →
    Fetch.isIndicator (Char.ofNat b.toNat) = false :=
  Text.forall_byte (by decide +kernel)

theorem integerByte_of_mem {n : Int} {b : UInt8} (hb : b ∈ Text.ofInt n) : isIntegerByte b = true :=
  List.all_eq_true.mp (isIntegerByte_ofInt n).1 b hb

theorem graphic_ofInt (n : Int) : ∀ b ∈ Text.ofInt n, IsGraphic b :=
  fun b hb => (integerByte_spec b (integerByte_of_mem hb)).1

theorem graphic_boolText (b : Bool) : ∀ b' ∈ boolText b, IsGraphic b' := by
  cases b <;> decide +kernel

theorem readable_ofInt (n : Int) : (wordField "maxSteps" (Text.ofInt n)).Readable := by
  have hkey : KeyWord "maxSteps".toList := by decide +kernel
  have hword : PlainWord (asciiChars (Text.ofInt n)) := by
    refine ⟨?_, ?_, ?_⟩
    · simpa [asciiChars] using (isIntegerByte_ofInt n).2
    · intro c hc
      obtain ⟨b, hb, rfl⟩ := List.mem_map.mp hc
      exact (integerByte_spec b (integerByte_of_mem hb)).2.1
    · intro hlast
      obtain ⟨b, hb, heq⟩ := List.mem_map.mp (List.mem_of_getLast? hlast)
      exact (integerByte_spec b (integerByte_of_mem hb)).2.2 heq
  have hstart : StartsPlain (asciiChars (Text.ofInt n)) := by
    obtain ⟨b, ds, heq, hb, hds⟩ := ofInt_cases n
    rw [heq]
    rcases hb with hb | ⟨rfl, hne⟩
    · exact .inl (isIndicator_of_isDigit b hb)
    · obtain ⟨d, ds', rfl⟩ := List.exists_cons_of_ne_nil hne
      have hd : isIntegerByte d = true := by simp [isIntegerByte, hds d (by simp)]
      exact .inr ⟨.inl rfl, (integerByte_spec d hd).2.1⟩
  exact ⟨hkey, .plain (.word hword) hstart, IsGraphic.clean (graphic_ofInt n)⟩

theorem readable_boolText (b : Bool) : (wordField "trace" (boolText b)).Readable := by
  have hkey : KeyWord "trace".toList := by decide +kernel
  have hinside : (asciiChars (boolText b)).all (fun c => !isBlankOrEnd c) = true := by
    cases b <;> decide
  have hword : PlainWord (asciiChars (boolText b)) :=
    ⟨by cases b <;> decide, fun c hc => by simpa using List.all_eq_true.mp hinside c hc,
      by cases b <;> decide⟩
  exact ⟨hkey, .plain (.word hword) (.inl (by cases b <;> decide)),
    IsGraphic.clean (graphic_boolText b)⟩

theorem toYaml_eq (c : Config) {outer prompt : List Field} (houter : FieldsOf 0 c.texts outer)
    (hprompt : FieldsOf 4 (promptTexts c.run) prompt) :
    c.toYaml = encodeChars
      (textOf (nestedLines outer "run".toList (optionFields c.run ++ prompt))) := by
  have hinner : encodeChars (textOf ((optionFields c.run ++ prompt).map (Field.line 4))) =
      "    trace: " ++ (boolText c.run.trace ++
        ("\n" ++ ("    maxSteps: " ++ (Text.ofInt c.run.maxSteps ++
        ("\n" ++ (promptTexts c.run).flatMap fun (key, t) => textLine 4 (encodeChars key) t))))) := by
    have hlast := hprompt.written []
    rw [List.append_nil] at hlast
    rw [optionFields, List.map_append, List.map_cons, List.map_cons, List.cons_append,
      List.cons_append,
      encodeChars_textOf, encodeChars_textOf, List.map_nil, List.nil_append, hlast]
    simp only [wordField, encodeChars_line, encodeChars_asciiChars (graphic_boolText _),
      encodeChars_asciiChars (graphic_ofInt _),
      List.append_assoc, textOf, encodeChars_nil, List.append_nil]
    rfl
  have hrun : encodeChars
      (textOf (⟨0, "run".toList, none⟩ :: (optionFields c.run ++ prompt).map (Field.line 4))) =
      "run:\n" ++ encodeChars (textOf ((optionFields c.run ++ prompt).map (Field.line 4))) := by
    have hline : textOf (⟨0, "run".toList, none⟩ :: (optionFields c.run ++ prompt).map
        (Field.line 4)) =
        "run:\n".toList ++ textOf ((optionFields c.run ++ prompt).map (Field.line 4)) := rfl
    rw [hline, encodeChars_append]
    rfl
  have htrace : Text.ofString (if c.run.trace = true then "true\n" else "false\n") =
      boolText c.run.trace ++ "\n" := by
    cases c.run.trace <;> rfl
  have htexts : c.texts.flatMap (fun (key, t) => textLine 0 (encodeChars key) t) =
      textLine 0 "name" c.name ++ (textLine 0 "version" c.version ++ (textLine 0 "main" c.main ++
        (textLine 0 "author" c.author ++ if c.tli.isEmpty then [] else textLine 0 "tli" c.tli))) := by
    unfold texts
    cases c.tli.isEmpty <;> simp <;> rfl
  have hlast : (promptTexts c.run).flatMap (fun (key, t) => textLine 4 (encodeChars key) t) =
      if c.run.prompt.isEmpty then [] else textLine 4 "prompt" c.run.prompt := by
    unfold promptTexts
    cases c.run.prompt.isEmpty
    · simp
      rfl
    · rfl
  rw [nestedLines, houter.written, hrun, hinner, htexts, hlast, toYaml, htrace]
  simp only [List.append_assoc]

/-- A configuration whose texts are of one line and whose limit has 64 bits. -/
structure Writable (c : Config) : Prop where
  name : c.name.IsLine
  version : c.version.IsLine
  main : c.main.IsLine
  author : c.author.IsLine
  tli : c.tli.IsLine
  prompt : c.run.prompt.IsLine
  low : -0x8000000000000000 ≤ c.run.maxSteps
  high : c.run.maxSteps < 0x8000000000000000

namespace Writable

variable {c : Config}

theorem texts (h : c.Writable) : ∀ p ∈ c.texts, KeyWord p.1 ∧ p.2.IsLine := by
  have hname : KeyWord "name".toList := by decide +kernel
  have hversion : KeyWord "version".toList := by decide +kernel
  have hmain : KeyWord "main".toList := by decide +kernel
  have hauthor : KeyWord "author".toList := by decide +kernel
  have htli : KeyWord "tli".toList := by decide +kernel
  intro p hp
  rcases List.mem_append.mp hp with hp | hp
  · simp only [List.mem_cons, List.not_mem_nil, or_false] at hp
    rcases hp with rfl | rfl | rfl | rfl
    · exact ⟨hname, h.name⟩
    · exact ⟨hversion, h.version⟩
    · exact ⟨hmain, h.main⟩
    · exact ⟨hauthor, h.author⟩
  · split at hp
    · cases hp
    · obtain rfl := List.mem_singleton.mp hp
      exact ⟨htli, h.tli⟩

theorem promptTexts (h : c.Writable) : ∀ p ∈ promptTexts c.run, KeyWord p.1 ∧ p.2.IsLine := by
  have hkey : KeyWord "prompt".toList := by decide +kernel
  intro p hp
  unfold Config.promptTexts at hp
  split at hp
  · cases hp
  · obtain rfl := List.mem_singleton.mp hp
    exact ⟨hkey, h.prompt⟩

end Writable

/-- The keys of texts. -/
def textKeys : List Text := ["name", "version", "main", "author", "tli"]

theorem fields_schema (fuel : Nat) : (schema fuel).fields = textKeys ++ [("run" : Text)] := rfl

theorem isKey_of_mem (fuel : Nat) {key : Text} (h : key ∈ textKeys) :
    key ≠ "run" ∧ IsKey (schema fuel) key := by
  have hkeys : ∀ key ∈ textKeys, key ≠ "run" ∧ IsTextTag (ownTag key true) ∧ key ≠ "<<" := by decide
  obtain ⟨hrun, htag, hmerge⟩ := hkeys key h
  exact ⟨hrun, htag, hmerge, by simp [fields_schema, h]⟩

theorem keys_texts (c : Config) :
    (c.texts.map fun (key, _) => encodeChars key) =
      if c.tli.isEmpty then textKeys.take 4 else textKeys := by
  unfold texts
  cases c.tli.isEmpty <;> rfl

theorem keys_promptTexts (r : RunOptions) :
    ((promptTexts r).map fun (key, _) => encodeChars key) =
      if r.prompt.isEmpty then [] else [("prompt" : Text)] := by
  unfold promptTexts
  cases r.prompt.isEmpty <;> rfl

/-- The texts of a configuration are set from its entries. -/
theorem sets_texts {c : Config} {fs : List Field} (h : FieldsOf 0 c.texts fs) {d : Document}
    {base : Nat} (hholds : d.Holds base (fs.map Field.entry)) (fuel : Nat) :
    Sets d (schema fuel) base {} ((fs.map Field.entry).map Yaml.Entry.key) { c with run := {} } := by
  have hmem : ∀ e ∈ fs.map Field.entry, e.key ∈ textKeys := by
    intro e he
    have hkey := List.mem_map_of_mem (f := Yaml.Entry.key) he
    rw [h.keys, keys_texts] at hkey
    split at hkey
    · exact List.mem_of_mem_take hkey
    · exact hkey
  have hfold : (fs.map Field.entry).foldl (fun (c : Config) e => c.setText e.key e.text)
      ({} : Config) =
      { c with run := {} } := by
    have hpairs : ∀ (es : List Yaml.Entry) (c : Config),
        es.foldl (fun c e => c.setText e.key e.text) c =
        (es.map fun e => (e.key, e.text)).foldl (fun c p => c.setText p.1 p.2) c := by
      intro es c
      rw [List.foldl_map]
    rw [hpairs, h.entries, texts]
    rcases htli : c.tli with _ | ⟨b, t⟩
    · rfl
    · rfl
  rw [← hfold]
  refine Sets.of_holds hholds _ (fun e he => ?_) (fun e he r id line hn => ?_) _
  · exact (isKey_of_mem fuel (hmem e he)).2
  · exact schema_text fuel r (isKey_of_mem fuel (hmem e he)).1 ⟨_, line, hn, h.tags e he⟩

theorem sets_prompt {r : RunOptions} {fs : List Field} (h : FieldsOf 4 (promptTexts r) fs)
    {d : Document} {base : Nat} (hholds : d.Holds base (fs.map Field.entry)) :
    Sets d runSchema base ⟨r.trace, r.maxSteps, []⟩ ((fs.map Field.entry).map Yaml.Entry.key) r := by
  have hkey : IsKey runSchema "prompt" := by decide
  have hmem : ∀ e ∈ fs.map Field.entry, e.key = "prompt" := by
    intro e he
    have hkey := List.mem_map_of_mem (f := Yaml.Entry.key) he
    rw [h.keys, keys_promptTexts] at hkey
    split at hkey
    · cases hkey
    · exact List.mem_singleton.mp hkey
  have hfold : (fs.map Field.entry).foldl (fun (r : RunOptions) e => { r with prompt := e.text })
      ⟨r.trace, r.maxSteps, []⟩ = r := by
    have hpairs : ∀ (es : List Yaml.Entry) (r : RunOptions),
        es.foldl (fun r e => { r with prompt := e.text }) r =
        (es.map fun e => (e.key, e.text)).foldl (fun r p => { r with prompt := p.2 }) r := by
      intro es r
      rw [List.foldl_map]
    rw [hpairs, h.entries, promptTexts]
    rcases r with ⟨trace, maxSteps, _ | ⟨b, t⟩⟩ <;> rfl
  have hsets := Sets.of_holds hholds (fun (r : RunOptions) e => { r with prompt := e.text })
    (fun e he => hmem e he ▸ hkey)
    (fun e he r id line hn => hmem e he ▸ runSchema_prompt r ⟨_, line, hn, h.tags e he⟩)
    ⟨r.trace, r.maxSteps, []⟩
  rwa [hfold] at hsets

theorem wordField_entry (key : String) {t : Text} (ht : ∀ b ∈ t, IsGraphic b) :
    (wordField key t).entry = ⟨encodeChars key.toList, t, true⟩ := by
  rw [wordField, Field.entry, encodeChars_asciiChars ht]

theorem sets_options {r : RunOptions} (hlow : -0x8000000000000000 ≤ r.maxSteps)
    (hhigh : r.maxSteps < 0x8000000000000000) {prompt : List Field}
    (h : FieldsOf 4 (promptTexts r) prompt)
    {d : Document} {base : Nat} (hholds : d.Holds base ((optionFields r ++ prompt).map Field.entry)) :
    Sets d runSchema base {} (((optionFields r ++ prompt).map Field.entry).map Yaml.Entry.key) r := by
  have htraceKey : IsKey runSchema "trace" := by decide
  have hstepsKey : IsKey runSchema "maxSteps" := by decide
  rw [List.map_append, optionFields, List.map_cons, List.map_cons,
    wordField_entry "trace" (graphic_boolText _),
    wordField_entry "maxSteps" (graphic_ofInt _)] at hholds ⊢
  obtain ⟨⟨line₁, htrace⟩, ⟨line₂, hbool⟩, ⟨line₃, hsteps⟩, ⟨line₄, hint⟩, hprompt⟩ := hholds
  exact .cons ⟨_, line₁, htrace, htraceKey.1⟩ htraceKey.2.1 htraceKey.2.2 (runSchema_trace _ _ hbool)
    (.cons ⟨_, line₃, hsteps, hstepsKey.1⟩ hstepsKey.2.1 hstepsKey.2.2
      (runSchema_maxSteps _ hlow hhigh hint) (sets_prompt h hprompt))

theorem nodup_options {r : RunOptions} {prompt : List Field} (h : FieldsOf 4 (promptTexts r) prompt) :
    (((optionFields r ++ prompt).map Field.entry).map Yaml.Entry.key).Nodup := by
  have hkeys : ((optionFields r ++ prompt).map Field.entry).map Yaml.Entry.key =
      ("trace" : Text) :: ("maxSteps" : Text) :: if r.prompt.isEmpty then [] else
        [("prompt" : Text)] := by
    rw [List.map_append, List.map_append, h.keys, keys_promptTexts]
    rfl
  rw [hkeys]
  split <;> decide

theorem nodup_texts {c : Config} {outer : List Field} (h : FieldsOf 0 c.texts outer) :
    ((outer.map Field.entry).map Yaml.Entry.key ++ [("run" : Text)]).Nodup := by
  rw [h.keys, keys_texts]
  split <;> decide

/-- The document of a configuration gives that configuration. -/
theorem gives_config {c : Config} (hlow : -0x8000000000000000 ≤ c.run.maxSteps)
    (hhigh : c.run.maxSteps < 0x8000000000000000) {outer prompt : List Field}
    (houter : FieldsOf 0 c.texts outer) (hprompt : FieldsOf 4 (promptTexts c.run) prompt)
    {d : Document}
    (hd : d.Nested (outer.map Field.entry) "run" ((optionFields c.run ++ prompt).map Field.entry))
    (fuel : Nat) :
    Gives d (Decode.record (schema (fuel + 1)) (fuel + 1) {} d.root) c := by
  obtain ⟨line, hroot⟩ := hd.mapping
  obtain ⟨line', hname⟩ := hd.nameAt
  obtain ⟨line'', hvalue⟩ := hd.valueAt
  have hinner : Sets.pairs (2 * (outer.map Field.entry).length + 3)
      (((optionFields c.run ++ prompt).map Field.entry).map Yaml.Entry.key) =
        Node.pairsOf (List.range' (2 * (outer.map Field.entry).length + 3)
          (2 * ((optionFields c.run ++ prompt).map Field.entry).length)) := by
    simp only [Sets.pairs, List.length_map]
  rw [← hinner] at hvalue
  have hoptions := Gives.record hvalue (sets_options hlow hhigh hprompt hd.innerAt)
      (nodup_options hprompt) fuel
  have hkey : IsKey (schema (fuel + 1)) "run" := ⟨by decide, by decide, by simp [fields_schema]⟩
  have hset : Gives d ((schema (fuel + 1)).set
      { c with run := {} } "run" (2 * (outer.map Field.entry).length + 2)) c :=
    hoptions.bind (.pure _)
  have hlast : Sets d (schema (fuel + 1)) (2 * (outer.map Field.entry).length + 1)
      { c with run := {} }
      [("run" : Text)] c :=
    .cons ⟨_, line', hname, hkey.1⟩ hkey.2.1 hkey.2.2 hset .nil
  have hsets := sets_texts houter hd.outerAt (fuel + 1)
  have hbase : 1 + 2 * ((outer.map Field.entry).map Yaml.Entry.key).length =
      2 * (outer.map Field.entry).length + 1 := by
    rw [List.length_map]
    omega
  have hpairs : Sets.pairs 1 ((outer.map Field.entry).map Yaml.Entry.key ++ [("run" : Text)]) =
      Node.pairsOf (List.range' 1 (2 * (outer.map Field.entry).length + 2)) := by
    rw [Sets.pairs, List.length_append, List.length_map]
    rfl
  rw [← hpairs] at hroot
  rw [hd.root]
  exact .record hroot (hsets.append (hbase ▸ hlast)) (nodup_texts houter) fuel

/-- **Reading what was written.** -/
theorem ofYaml_toYaml {c : Config} (h : c.Writable) : ofYaml c.toYaml = .ok c := by
  obtain ⟨outer, houter⟩ := exists_fields h.texts 0
  obtain ⟨prompt, hprompt⟩ := exists_fields h.promptTexts 4
  have hinner : ∀ f ∈ optionFields c.run ++ prompt, f.Readable := by
    intro f hf
    rcases List.mem_append.mp hf with hf | hf
    · simp only [optionFields, List.mem_cons, List.not_mem_nil, or_false] at hf
      rcases hf with rfl | rfl
      · exact readable_boolText _
      · exact readable_ofInt _
    · exact hprompt.readable f hf
  have hrun : KeyWord "run".toList := by decide +kernel
  obtain ⟨d, hread, hd⟩ := readDocument_nested houter.readable hrun hinner (by simp [optionFields])
  rw [ofYaml, toYaml_eq c houter hprompt, hread]
  exact Document.record_eq fun fuel => gives_config h.low h.high houter hprompt hd fuel

end Config

end TinyLang
