import TinyLang.Yaml.Token
import TinyLang.Proofs.Yaml.Scalar

/-!
# Tokens of a block mapping

The tokens of lines that each hold a key and a scalar, or a key before lines that are indented deeper.
Tokens are cut on demand and keys are found late, so a tokenizer is described by the tokens that it is
still to give (`Tokenizer.Pending`): cutting another one does not change them, and taking one takes
the first of them off.

* `kindsFrom`: the tokens of such lines.
* `Tokenizer.Pending.next`: cutting a token leaves what is still to come.
* `Tokenizer.Pending.peek`, `Tokenizer.Pending.skip`: the next token is the first of those to come.
-/

namespace TinyLang.Yaml

/-! ## Lines -/

/-- Whether a plain scalar may start with these characters: with no mark, or with one of three that
are marks only before a blank. -/
def StartsPlain (u : List Char) : Prop :=
  Fetch.isIndicator (nextOf u) = false ∨
    (nextOf u = '-' ∨ nextOf u = '?' ∨ nextOf u = ':') ∧ isBlankOrEnd (nextOf u.tail) = false

/-- A scalar as it is written, with its text. -/
structure ScalarForm where
  source : List Char
  text : List Char
  plain : Bool

/-- The scalar reads as its text. -/
inductive ScalarForm.Readable : ScalarForm → Prop
  | plain {u : List Char} (hu : PlainText u) (hstart : StartsPlain u) : Readable ⟨u, u, true⟩
  | quoted {single : Bool} {spell : Char → List Char} {t : List Char}
      (ht : ∀ c ∈ t, SpellsOrSpace single c (spell c)) :
      Readable ⟨Scan.quoteOf single :: (t.flatMap spell ++ [Scan.quoteOf single]), t, false⟩

/-- The token of a scalar. -/
def ScalarForm.kind (v : ScalarForm) : TokenKind := .scalar (encodeChars v.text) v.plain

/-- A line of a block mapping. Without a scalar the lines behind it are its value. -/
structure Line where
  column : Nat
  key : List Char
  value : Option ScalarForm

/-- What stands behind a colon, with the lines after it. -/
def behindColon (value : Option ScalarForm) (rest : List Char) : List Char :=
  match value with
  | some v => ' ' :: (v.source ++ '\n' :: rest)
  | none => '\n' :: rest

/-- The characters of lines. -/
def textOf : List Line → List Char
  | [] => []
  | l :: ls => List.replicate l.column ' ' ++ (l.key ++ ':' :: behindColon l.value (textOf ls))

/-- The characters of lines without the first indentation. -/
def bodyOf : List Line → List Char
  | [] => []
  | l :: ls => l.key ++ ':' :: behindColon l.value (textOf ls)

/-- The column of the first line. -/
def firstColumn : List Line → Nat
  | [] => 0
  | l :: _ => l.column

theorem textOf_eq (ls : List Line) :
    textOf ls = List.replicate (firstColumn ls) ' ' ++ bodyOf ls := by
  cases ls <;> rfl

/-- A key that is short and made of letters. -/
structure KeyWord (key : List Char) : Prop where
  ne_nil : key ≠ []
  letters : ∀ c ∈ key, c.isAlpha = true
  reach : key.length ≤ Tokenizer.keyReach

instance : DecidablePred KeyWord := fun key =>
  decidable_of_iff (key ≠ [] ∧ key.all Char.isAlpha = true ∧ key.length ≤ Tokenizer.keyReach)
    ⟨fun h => ⟨h.1, List.all_eq_true.mp h.2.1, h.2.2⟩, fun h =>
      ⟨h.ne_nil, List.all_eq_true.mpr h.letters, h.reach⟩⟩

/-- A line whose scalar, if it has one, reads as its text. -/
structure Line.Readable (l : Line) : Prop where
  key : KeyWord l.key
  value : ∀ v ∈ l.value, v.Readable

/-- The columns of the mappings around the next line. -/
def enterColumn (cols : List Nat) (column : Nat) : List Nat :=
  if cols.head? = some column then cols else column :: cols

/-- Lines in mappings at some columns, the innermost first: no line is left of the innermost one, and
one that follows a scalar is in the same mapping. -/
inductive Layout : List Nat → List Line → Prop
  | nil {cols : List Nat} : Layout cols []
  | cons {cols : List Nat} {l : Line} {ls : List Line} (hl : l.Readable)
      (hcolumn : ∀ c ∈ cols.head?, c ≤ l.column) (hdepth : cols.length < Fetch.depthLimit)
      (hnext : l.value ≠ none → firstColumn ls ≤ l.column)
      (hls : Layout (enterColumn cols l.column) ls) :
      Layout cols (l :: ls)

/-- The tokens of a line. -/
def Line.kinds (l : Line) : List TokenKind :=
  [.key, .scalar (encodeChars l.key) true, .value] ++ (l.value.map ScalarForm.kind).toList

/-- The tokens of lines in mappings at some columns, up to the end of the stream. -/
def kindsFrom : List Nat → List Line → List TokenKind
  | cols, [] => List.replicate cols.length .blockEnd ++ [.streamEnd]
  | cols, l :: ls =>
    (if cols.head? = some l.column then [] else [.blockMappingStart]) ++
      (l.kinds ++ kindsFrom (enterColumn cols l.column) ls)

/-- A scalar starts with a character that is passed in no gap. -/
theorem ScalarForm.Readable.next {v : ScalarForm} (hv : v.Readable) (rest : List Char) :
    isBlankOrEnd (nextOf (v.source ++ rest)) = false ∧ nextOf (v.source ++ rest) ≠ '#' := by
  cases hv with
  | plain hu hstart =>
    obtain ⟨hblank, hnext⟩ := hu.next rest
    refine ⟨hblank, ?_⟩
    rw [hnext]
    rcases hstart with hstart | ⟨hstart | hstart | hstart, -⟩
    · rintro heq
      rw [heq] at hstart
      exact absurd hstart (by decide)
    all_goals rw [hstart]; decide
  | @quoted single => cases single <;> exact ⟨rfl, by simp [Scan.quoteOf]⟩

theorem dropWhile_isBlank {cs : List Char} (h : isBlank (nextOf cs) = false) :
    cs.dropWhile isBlank = cs := by
  cases cs with
  | nil => rfl
  | cons c cs => rw [List.dropWhile_cons_of_neg (by simpa using h)]

theorem ne_of_isAlpha {c d : Char} (hc : c.isAlpha = true) (hd : d.isAlpha = false) : c ≠ d := by
  rintro rfl
  simp [hc] at hd

theorem isBlankOrEnd_of_isAlpha {c : Char} (hc : c.isAlpha = true) : isBlankOrEnd c = false := by
  rw [← Bool.not_eq_true]
  intro h
  simp only [isBlankOrEnd, isBlank, isBreakOrEnd, isBreak, endChar, Bool.or_eq_true, beq_iff_eq] at h
  rcases h with (rfl | rfl) | ((((rfl | rfl) | rfl) | rfl) | rfl) | rfl <;> exact absurd hc
      (by decide)

theorem isIndicator_of_isAlpha {c : Char} (hc : c.isAlpha = true) : Fetch.isIndicator c = false := by
  have hcontains : ∀ ds : List Char, ds.all (fun d => !d.isAlpha) = true → ds.contains c = false := by
    intro ds hds
    rw [List.contains_eq_any_beq, List.any_eq_false]
    intro d hd
    have hd' : d.isAlpha = false := by simpa using List.all_eq_true.mp hds d hd
    simpa using ne_of_isAlpha hc hd'
  exact hcontains _ (by decide)

theorem Line.Readable.word {l : Line} (hl : l.Readable) : PlainWord l.key where
  ne_nil := hl.key.ne_nil
  inside c hc := isBlankOrEnd_of_isAlpha (hl.key.letters c hc)
  last h := absurd (hl.key.letters ':' (List.mem_of_getLast? h)) (by decide)

/-- The first character of a line is a letter. -/
theorem Line.Readable.next {l : Line} (hl : l.Readable) (rest : List Char) :
    (nextOf (l.key ++ rest)).isAlpha = true ∧ nextOf (l.key ++ rest) = nextOf l.key := by
  obtain ⟨c, w, hkey⟩ := List.exists_cons_of_ne_nil hl.key.ne_nil
  rw [hkey]
  exact ⟨hl.key.letters c (by simp [hkey]), rfl⟩

theorem startsToken_of_isAlpha {c : Char} (hc : c.isAlpha = true) : StartsToken c :=
  ⟨ne_of_isAlpha hc (by decide), ne_of_isAlpha hc (by decide), ne_of_isAlpha hc (by decide),
    isBreak_eq_false (isBlankOrEnd_of_isAlpha hc)⟩

theorem Layout.startsToken {cols : List Nat} {ls : List Line} (h : Layout cols ls) :
    StartsToken (nextOf (bodyOf ls)) := by
  cases h with
  | nil => exact ⟨by decide, by decide, by decide, by decide⟩
  | cons hl => exact startsToken_of_isAlpha (hl.next _).1

/-! ## Steps of a tokenizer -/

namespace Tokenizer

/-- The kinds of the tokens that have been cut and not been taken. -/
def kinds (t : Tokenizer) : List TokenKind := t.queue.map Token.kind

/-- The columns of the collections around a place, the last one negative. -/
def outer (cols : List Nat) : List Int := cols.map Int.ofNat ++ [-1]

/-- What a tokenizer is like outside of brackets where no key can have started. -/
structure Calm (t : Tokenizer) (cols : List Nat) : Prop where
  stack : t.indent :: t.indents = outer cols
  slots : ∃ p m, t.slots = #[⟨p, m, .impossible⟩]
  held : ∀ k : Nat, t.held[k]? = none

end Tokenizer

namespace Fetch

variable {t : Tokenizer} {j : Input} {m : Mark} {cols : List Nat} {size : Nat}

theorem scan_run {α : Type} {x : Scan α} {a : α} (h : x.run t.input = .ok (a, j)) :
    (scan x).run t = .ok (a, { t with input := j }) := by
  rw [scan, run_get_bind, StateT.run_bind]
  change (do let p ← x.run t.input; pure (p, t)) >>= _ = _
  rw [h]
  rfl

theorem push_run (kind : TokenKind) (mark : Mark) :
    (push kind mark).run t = .ok ((), t.push kind mark) := rfl

theorem allowKey_run (b : Bool) : (allowKey b).run t = .ok ((), { t with keyAllowed := b }) := rfl

theorem dropKey_run (h : t.Calm cols) : dropKey.run t = .ok ((), t) := by
  obtain ⟨p, m, hslots⟩ := h.slots
  rw [dropKey, run_get_bind]
  simp [Tokenizer.slot, Tokenizer.slotAt, Tokenizer.depth, hslots]
  rfl

theorem inFlow_eq_false (h : t.Calm cols) : t.inFlow = false := by
  obtain ⟨p, m, hslots⟩ := h.slots
  simp [Tokenizer.inFlow, hslots]

/-- Where a key may start, its place is remembered. -/
theorem saveKey_run (h : t.Calm cols) (hallowed : t.keyAllowed = true) :
    ∃ state, state ≠ KeyState.impossible ∧ saveKey.run t = .ok ((),
      { t with slots := #[⟨t.count, t.mark, state⟩], held := t.held.insert t.count 0 }) := by
  obtain ⟨p, m, hslots⟩ := h.slots
  refine ⟨if !t.inFlow && t.indent == t.mark.column then .required else .possible, ?_, ?_⟩
  · split <;> simp
  · rw [saveKey, run_get_bind, if_pos hallowed, run_bind_ok (dropKey_run h)]
    simp [Tokenizer.depth, hslots]
    rfl

theorem saveKey_run_false (hallowed : t.keyAllowed = false) : saveKey.run t = .ok ((), t) := by
  rw [saveKey, run_get_bind, if_neg (by simp [hallowed])]
  rfl

theorem unroll_run (hflow : t.inFlow = false) (column : Int) (m : Mark) :
    (unroll column m).run t = .ok ((), unrollFrom column m t.indents t) := by
  change Except.ok ((), if t.inFlow = true then t else unrollFrom column m t.indents t) = _
  rw [hflow, if_neg (by simp)]

theorem unrollFrom_eq_self {column : Int} (hcolumn : t.indent ≤ column) (m : Mark)
    (indents : List Int) :
    unrollFrom column m indents t = t := by
  cases indents with
  | nil => rfl
  | cons outer rest => rw [unrollFrom, if_neg (Int.not_lt.mpr hcolumn)]

/-- Collections are closed from the inside, all of them if no column is left of them. -/
theorem unrollFrom_eq (hstack : t.indent :: t.indents = Tokenizer.outer cols) (column : Int)
    (m : Mark) :
    ∃ n indent indents, n ≤ cols.length ∧ (column < 0 → n = cols.length) ∧
      indent :: indents = Tokenizer.outer (cols.drop n) ∧ unrollFrom column m t.indents t =
        { t with indent, indents, queue := t.queue ++ List.replicate n ⟨.blockEnd, m⟩ } := by
  induction cols generalizing t with
  | nil =>
    obtain ⟨hindent, hindents⟩ := List.cons.inj hstack
    refine ⟨0, t.indent, t.indents, Nat.le_refl 0, fun _ => rfl, hstack, ?_⟩
    have hself : unrollFrom column m t.indents t = t := by rw [hindents]; rfl
    rw [hself]
    simp
  | cons c cols ih =>
    obtain ⟨hindent, hindents⟩ := List.cons.inj hstack
    by_cases hlt : column < t.indent
    · obtain ⟨outer, rest, houter⟩ : ∃ outer rest, Tokenizer.outer cols = outer :: rest :=
        List.exists_cons_of_ne_nil (by simp [Tokenizer.outer])
      obtain ⟨n, indent, indents, hn, hall, hstack', hrun⟩ :=
        ih (t := { t.push .blockEnd m with indent := outer, indents := rest }) houter.symm
      refine ⟨n + 1, indent, indents, Nat.succ_le_succ hn, fun h => by rw [hall h]; rfl, hstack', ?_⟩
      rw [hindents, show (cols.map Int.ofNat).append [-1] = outer :: rest from houter, unrollFrom,
        if_pos hlt]
      refine hrun.trans ?_
      simp [Tokenizer.push, List.replicate_succ]
    · refine ⟨0, t.indent, t.indents, Nat.zero_le _, fun h => ?_, hstack, ?_⟩
      · have : t.indent = c := hindent
        omega
      · rw [unrollFrom_eq_self (Int.not_lt.mp hlt)]
        simp

/-! ### Tokens by their first character -/

theorem tokenFrom_plain (hflow : t.inFlow = false) {c next : Char}
    (h : isBlankOrEnd c = false ∧ isIndicator c = false ∨
      (c = '-' ∨ c = '?' ∨ c = ':') ∧ isBlankOrEnd next = false) :
    (tokenFrom c next).run t = plainScalar.run t := by
  rw [tokenFrom, run_get_bind]
  rcases h with ⟨hblank, hindicator⟩ | ⟨rfl | rfl | rfl, hnext⟩
  · have hindicator' := hindicator
    simp [isIndicator] at hindicator'
    simp [hflow, hblank, hindicator, hindicator']
  · simp [hnext]
  · simp [hflow, hnext]
  · simp [hflow, hnext]

theorem tokenFrom_colon {next : Char} (hnext : isBlankOrEnd next = true) :
    (tokenFrom ':' next).run t = value.run t := by
  rw [tokenFrom, run_get_bind]
  simp [hnext]

theorem tokenFrom_quote (single : Bool) (next : Char) :
    (tokenFrom (Scan.quoteOf single) next).run t = (quotedScalar single).run t := by
  rw [tokenFrom, run_get_bind]
  cases single <;> simp [Scan.quoteOf]

theorem keyToken_run {α : Type} {x : Scan α} {a : α} {t' : Tokenizer}
    (hsave : saveKey.run t = .ok ((), t'))
    (hx : x.run t'.input = .ok (a, j)) (kind : α → TokenKind) :
    (keyToken x kind).run t = .ok (a,
      { t' with keyAllowed := false, input := j, queue := t'.queue ++ [⟨kind a, t'.mark⟩] }) := by
  rw [keyToken, run_bind_ok hsave, run_bind_ok (allowKey_run false), run_get_bind,
    run_bind_ok (scan_run (t := { t' with keyAllowed := false }) hx), run_bind_ok (push_run _ _),
      run_pure_ok]
  rfl

/-! ### The next token -/

/-- Where a token starts, the next token is that one, with the ends of the collections it is not in. -/
theorem next_run {m m' : Mark} {cs cs' : List Char} {keyAllowed : Bool} (hstarted : t.started = true)
    (hflow : t.inFlow = false) (h : t.input.Shows size 0 m cs)
    (hto : ∀ i : Input, i.Shows size 0 m cs → ∀ fuel,
      ∃ j, (Scan.toNextToken false (fuel + 2) t.keyAllowed).run i = .ok (keyAllowed, j) ∧
        j.Shows size 1 m' cs') :
    ∃ j m₀, j.Shows size 0 m' cs' ∧ next.run t =
      here.run (unrollFrom m'.column m₀ t.indents { t with input := j, keyAllowed }) := by
  obtain ⟨i₁, hneed, h₁⟩ := h.need 1
  obtain ⟨i₂, hto, h₂⟩ := hto i₁ (h₁.mono (Nat.zero_le 1)) i₁.size
  refine ⟨i₂, i₁.mark, h₂.mono (Nat.zero_le 1), ?_⟩
  have hscan : ∀ t₁ : Tokenizer, t₁ = { t with input := i₁ } →
      (scan (do Scan.toNextToken t₁.inFlow (← Scan.fuel) t₁.keyAllowed)).run t₁ =
        .ok (keyAllowed, { t with input := i₂ }) := by
    rintro t₁ rfl
    refine scan_run ?_
    rw [run_bind_ok (Scan.fuel_run i₁)]
    exact hflow ▸ hto
  have hunroll : ∀ t₂ : Tokenizer, t₂ = { t with input := i₂, keyAllowed } → ∀ m : Mark,
      (unroll t₂.mark.column m).run t₂ = .ok ((), unrollFrom m'.column m t.indents t₂) := by
    rintro t₂ rfl m
    rw [← h₂.mark]
    exact unroll_run (t := { t with input := i₂, keyAllowed }) hflow _ m
  rw [next, run_bind_ok (scan_run hneed), run_get_bind, if_neg (by simp [hstarted]),
    run_bind_ok (hscan _ rfl), run_bind_ok (allowKey_run keyAllowed), run_get_bind,
    run_bind_ok (hunroll _ rfl _)]
  rfl

/-- A token that stands for itself. -/
theorem here_run {m : Mark} {cs : List Char} (h : t.input.Shows size 0 m cs)
    (hend : nextOf cs ≠ endChar)
    (hmark : m.column ≠ 0 ∨ nextOf cs ≠ '%' ∧ nextOf cs ≠ '-' ∧ nextOf cs ≠ '.') :
    ∃ j, j.Shows size 4 m cs ∧ here.run t = (do
      tokenFrom (nextOf cs) (nextOf cs.tail)
      if ((← get).queue.getLast?.map Token.kind) != some .blockEntry then scan Scan.skipLineComment
        : Fetch Unit).run { t with input := j } := by
  obtain ⟨j, hneed, hj⟩ := h.need 4
  refine ⟨j, hj, ?_⟩
  have hhead : j.head = nextOf cs := hj.head_eq
  have hnext : j.get 1 = nextOf cs.tail := by
    rw [hj.get_eq (by omega)]
    cases cs with
    | nil => rfl
    | cons c cs => cases cs <;> rfl
  have hdoc : j.atDocumentMark = false := hj.atDocumentMark_eq_false (hmark.imp_right And.right)
  have hpercent : ¬ (j.mark.column == 0 && j.head == '%') = true := by
    rw [hj.mark, hhead]
    rcases hmark with hmark | ⟨hmark, -⟩ <;> simp [hmark]
  rw [here, run_bind_ok (scan_run hneed), run_get_bind]
  dsimp only
  rw [if_neg (by simpa [hhead] using hend), if_neg hpercent, hdoc, if_neg (by simp), hhead, hnext]

/-- Where a token starts that stands for itself and is in the innermost collection. -/
theorem next_token {m m' : Mark} {cs cs' : List Char} {keyAllowed : Bool}
    (hstarted : t.started = true) (hflow : t.inFlow = false) (h : t.input.Shows size 0 m cs)
    (hto : ∀ i : Input, i.Shows size 0 m cs → ∀ fuel,
      ∃ j, (Scan.toNextToken false (fuel + 2) t.keyAllowed).run i = .ok (keyAllowed, j) ∧
        j.Shows size 1 m' cs')
    (hindent : t.indent ≤ m'.column) (hend : nextOf cs' ≠ endChar)
    (hmark : m'.column ≠ 0 ∨ nextOf cs' ≠ '%' ∧ nextOf cs' ≠ '-' ∧ nextOf cs' ≠ '.') :
    ∃ j, j.Shows size 4 m' cs' ∧ next.run t = (do
      tokenFrom (nextOf cs') (nextOf cs'.tail)
      if ((← get).queue.getLast?.map Token.kind) != some .blockEntry then scan Scan.skipLineComment
        : Fetch Unit).run { t with input := j, keyAllowed } := by
  obtain ⟨i, m₀, hi, hnext⟩ := next_run hstarted hflow h hto
  obtain ⟨j, hj, hhere⟩ := here_run (t := { t with input := i, keyAllowed }) hi hend hmark
  refine ⟨j, hj, ?_⟩
  rw [hnext, unrollFrom_eq_self (t := { t with input := i, keyAllowed }) hindent, hhere]

end Fetch

/-! ## What is still to come -/

namespace Tokenizer

/-- A key has started with the last token. -/
structure Expects (t : Tokenizer) (cols : List Nat) (column : Nat) : Prop where
  stack : t.indent :: t.indents = outer cols
  slots : ∃ m state, t.slots = #[⟨t.count - 1, m, state⟩] ∧ state ≠ .impossible ∧ m.column = column ∧
    t.reaches m = true
  held : ∀ k : Nat, k ≠ t.count - 1 → t.held[k]? = none

/-- The stream goes on with lines, behind the end of another or at the first of them. -/
def Before (t : Tokenizer) (size : Nat) (ls : List Line) : Prop :=
  (∃ m, t.input.Shows size 0 m ('\n' :: textOf ls)) ∨
    ∃ m, t.input.Shows size 0 m (bodyOf ls) ∧ m.column = firstColumn ls ∧ t.keyAllowed = true

/-- The kinds of the tokens that a tokenizer is still to give, the last of them as often as it is asked
for it. -/
inductive Pending (t : Tokenizer) (size : Nat) : List TokenKind → Prop
  | fresh {ls : List Line} (hstarted : t.started = false) (hcalm : t.Calm []) (hlayout : Layout [] ls)
      (hcolumn : firstColumn ls = 0) (hallowed : t.keyAllowed = true) (hqueue : t.queue = [])
      (hinput : t.input.Shows size 0 .start (textOf ls)) :
      Pending t size (.streamStart :: kindsFrom [] ls)
  | line {cols : List Nat} {ls : List Line} (hstarted : t.started = true) (hcalm : t.Calm cols)
      (hlayout : Layout cols ls) (hinput : t.Before size ls) :
      Pending t size (t.kinds ++ kindsFrom cols ls)
  | colon {cols : List Nat} {l : Line} {ls : List Line} {q : List TokenKind}
      (hstarted : t.started = true)
      (hexpects : t.Expects cols l.column) (hlayout : Layout cols (l :: ls))
      (hkinds : t.kinds = q ++ [.scalar (encodeChars l.key) true])
      (hinput : ∃ m, l.column ≤ m.column ∧
      t.input.Shows size 0 m (':' :: behindColon l.value (textOf ls))) :
      Pending t size (q ++ kindsFrom cols (l :: ls))
  | value {cols : List Nat} {column : Nat} {v : ScalarForm} {ls : List Line}
      (hstarted : t.started = true)
      (hcalm : t.Calm cols) (hallowed : t.keyAllowed = false) (hlayout : Layout cols ls)
      (hcolumn : cols.head? = some column) (hnext : firstColumn ls ≤ column) (hv : v.Readable)
      (hinput : ∃ m, column ≤ m.column ∧
      t.input.Shows size 0 m (' ' :: (v.source ++ '\n' :: textOf ls))) :
      Pending t size (t.kinds ++ v.kind :: kindsFrom cols ls)
  | ended {kinds : List TokenKind} {n : Nat} (hstarted : t.started = true) (hcalm : t.Calm [])
      (hinput : ∃ m, t.input.Shows size 0 m [])
      (hkinds : t.kinds = kinds ++ List.replicate n .streamEnd) :
      Pending t size kinds

variable {t : Tokenizer} {cols : List Nat} {size : Nat}

theorem indent_le (h : t.indent :: t.indents = outer cols) {n : Nat} (hn : ∀ c ∈ cols.head?, c ≤ n) :
    t.indent ≤ n := by
  cases cols with
  | nil =>
    have : t.indent = -1 := (List.cons.inj h).1
    omega
  | cons c cols =>
    have hindent : t.indent = c := (List.cons.inj h).1
    have := hn c rfl
    omega

theorem Before.toNextToken {ls : List Line} (h : t.Before size ls) (hlayout : Layout cols ls) :
    ∃ m cs m', t.input.Shows size 0 m cs ∧ m'.column = firstColumn ls ∧
      ∀ i : Input, i.Shows size 0 m cs → ∀ fuel,
        ∃ j, (Scan.toNextToken false (fuel + 2) t.keyAllowed).run i = .ok (true, j) ∧
          j.Shows size 1 m' (bodyOf ls) := by
  rcases h with ⟨m, h⟩ | ⟨m, h, hcolumn, hallowed⟩
  · refine ⟨m, _, (m.down 1).forward (firstColumn ls), h, by simp [Mark.down, Mark.forward], ?_⟩
    intro i hi fuel
    rw [textOf_eq] at hi
    exact Input.Shows.toNextToken_line (a := 0) hlayout.startsToken hi fuel t.keyAllowed
  · refine ⟨m, _, m, h, hcolumn, fun i hi fuel => ?_⟩
    rw [hallowed]
    exact Input.Shows.toNextToken (a := 0) hlayout.startsToken hi (fuel + 1) true

end Tokenizer

namespace Fetch

variable {t : Tokenizer} {m : Mark} {cols : List Nat} {cs : List Char} {size : Nat}

/-- A key, as far as can be told before its colon. -/
theorem plainScalar_run_key (h : t.Calm cols) (hallowed : t.keyAllowed = true) {l : Line}
    (hl : l.Readable)
    (hinput : t.input.Shows size 0 m (l.key ++ ':' :: cs)) (hcs : isBlankOrEnd (nextOf cs) = true) :
    ∃ state j, state ≠ KeyState.impossible ∧ j.Shows size 2 (m.forward l.key.length) (':' :: cs) ∧
      plainScalar.run t = .ok ((),
        { t with
          slots := #[⟨t.count, m, state⟩], held := t.held.insert t.count 0, keyAllowed := false,
            input := j
          queue := t.queue ++ [⟨.scalar (encodeChars l.key) true, m⟩] }) := by
  obtain ⟨state, hstate, hsave⟩ := saveKey_run h hallowed
  have hfirst := hl.next []
  rw [List.append_nil] at hfirst
  obtain ⟨j, hscan, hj⟩ := hinput.plainScalar_key hl.word (ne_of_isAlpha hfirst.1 (by decide))
    (.inr ⟨ne_of_isAlpha hfirst.1 (by decide), ne_of_isAlpha hfirst.1 (by decide)⟩) hcs
      (t.indent + 1).toNat
  refine ⟨state, j, hstate, hj, ?_⟩
  rw [plainScalar, run_get_bind, inFlow_eq_false h, run_bind_ok (keyToken_run hsave hscan _),
    if_neg (by simp), run_pure_ok, ← hinput.mark]
  rfl

/-- A plain scalar behind a colon. -/
theorem plainScalar_run_value (hflow : t.inFlow = false) (hallowed : t.keyAllowed = false)
    {u : List Char}
    (hu : PlainText u) (hstart : StartsPlain u) {column : Nat} (hindent : t.indent = column)
    {ls : List Line}
    (hlayout : Layout cols ls) (hnext : firstColumn ls ≤ column) (hcolumn : column < m.column)
    (hinput : t.input.Shows size 0 m (u ++ '\n' :: textOf ls)) :
    ∃ j m', j.Shows size 1 m' (bodyOf ls) ∧ m'.column = firstColumn ls ∧
      plainScalar.run t = .ok ((),
        { t with keyAllowed := true, input := j, queue :=
        t.queue ++ [⟨.scalar (encodeChars u) true, m⟩] }) := by
  obtain ⟨hspace, htab, -, hbreak⟩ := hlayout.startsToken
  have hhash : nextOf u ≠ '#' := by
    have hnext := ((ScalarForm.Readable.plain hu hstart).next []).2
    rwa [List.append_nil] at hnext
  rw [textOf_eq] at hinput
  obtain ⟨j, hscan, hj⟩ := hinput.plainScalar_line hu hhash (Nat.lt_succ_of_le hnext) hcolumn
    (by simp [isBlank, hspace, htab]) hbreak
  refine ⟨j, _, hj, by simp [Mark.forward, Mark.down], ?_⟩
  have hwidth : (t.indent + 1).toNat = column + 1 := by omega
  rw [plainScalar, run_get_bind, hflow, hwidth,
    run_bind_ok (keyToken_run (saveKey_run_false hallowed) hscan _),
    if_pos rfl, allowKey_run, ← hinput.mark]
  rfl

/-- A quoted scalar behind a colon. -/
theorem quotedScalar_run_value (hallowed : t.keyAllowed = false) {single : Bool}
    {spell : Char → List Char}
    {u : List Char} (hu : ∀ c ∈ u, SpellsOrSpace single c (spell c)) (hcs : nextOf cs ≠ '\'')
    (hinput : t.input.Shows size 1 m
    (Scan.quoteOf single :: (u.flatMap spell ++ Scan.quoteOf single :: cs))) :
    ∃ j m', j.Shows size 0 m' cs ∧ (quotedScalar single).run t = .ok ((),
      { t with input := j, queue := t.queue ++ [⟨.scalar (encodeChars u) false, m⟩] }) := by
  obtain ⟨j, hscan, hj⟩ := hinput.quotedScalar hu hcs
  refine ⟨j, _, hj, ?_⟩
  rw [quotedScalar, run_bind_ok (keyToken_run (saveKey_run_false hallowed) hscan _), run_pure_ok,
    ← hinput.mark, ← hallowed]
  rfl

/-- A scalar behind a colon, in whatever style. -/
theorem tokenFrom_scalar (hflow : t.inFlow = false) (hallowed : t.keyAllowed = false) {v : ScalarForm}
    (hv : v.Readable) {column : Nat} (hindent : t.indent = column) {ls : List Line}
    (hlayout : Layout cols ls) (hnext : firstColumn ls ≤ column) (hcolumn : column < m.column)
    (hinput : t.input.Shows size 1 m (v.source ++ '\n' :: textOf ls)) :
    ∃ t', (tokenFrom (nextOf (v.source ++ '\n' :: textOf ls))
          (nextOf (v.source ++ '\n' :: textOf ls).tail)).run t = .ok ((), t') ∧
      t'.Before size ls ∧ ∃ j keyAllowed,
        t' = { t with input := j, keyAllowed, queue := t.queue ++ [⟨v.kind, m⟩] } := by
  cases hv with
  | @plain u hu hstart =>
    obtain ⟨hblank, hfirst⟩ := hu.next ('\n' :: textOf ls)
    have hstart' : isBlankOrEnd (nextOf (u ++ '\n' :: textOf ls)) = false ∧
          isIndicator (nextOf (u ++ '\n' :: textOf ls)) = false ∨
        (nextOf (u ++ '\n' :: textOf ls) = '-' ∨ nextOf (u ++ '\n' :: textOf ls) = '?' ∨
            nextOf (u ++ '\n' :: textOf ls) = ':') ∧
          isBlankOrEnd (nextOf (u ++ '\n' :: textOf ls).tail) = false := by
      rw [hfirst]
      refine hstart.imp (fun h => ⟨hfirst ▸ hblank, h⟩) fun h => ⟨h.1, ?_⟩
      have hnil : ¬ isBlankOrEnd endChar = false := by decide
      cases u with
      | nil => exact absurd h.2 hnil
      | cons c u =>
        cases u with
        | nil => exact absurd h.2 hnil
        | cons d u => exact h.2
    obtain ⟨j, m', hj, hm', hplain⟩ :=
        plainScalar_run_value hflow hallowed hu hstart hindent hlayout hnext
      hcolumn (hinput.mono (Nat.zero_le 1))
    exact ⟨_, (tokenFrom_plain hflow hstart').trans hplain,
      .inr ⟨m', hj.mono (Nat.zero_le 1), hm', rfl⟩, j, true, rfl⟩
  | @quoted single spell u hu =>
    have hinput' : t.input.Shows size 1 m
        (Scan.quoteOf single :: (u.flatMap spell ++ Scan.quoteOf single :: '\n' :: textOf ls)) := by
      simpa using hinput
    obtain ⟨j, m', hj, hquoted⟩ := quotedScalar_run_value hallowed hu (by simp) hinput'
    exact ⟨_, (tokenFrom_quote single _).trans hquoted, .inl ⟨m', hj⟩, j, t.keyAllowed, rfl⟩

end Fetch

theorem Tokenizer.pushAt_eq {t : Tokenizer} {before after : List Token}
    (h : t.queue = before ++ after) (kind : TokenKind) (m : Mark) :
    t.pushAt (t.taken + before.length) kind m = { t with queue := before ++ ⟨kind, m⟩ :: after } := by
  simp [Tokenizer.pushAt, h]

namespace Fetch

variable {t : Tokenizer} {m : Mark} {cols : List Nat} {size : Nat}

theorem isLive_run {column : Nat} (h : t.Expects cols column) :
    (isLive t.depth).run t = .ok (true, t) := by
  obtain ⟨m, state, hslots, hstate, -, hreaches⟩ := h.slots
  rw [isLive, run_get_bind]
  cases state <;> simp [Tokenizer.slotAt, Tokenizer.depth, hslots, hreaches] at hstate ⊢ <;> rfl

/-- A mapping is opened by a key to the right of the innermost one. -/
theorem roll_run (hstack : t.indent :: t.indents = Tokenizer.outer cols) (hflow : t.inFlow = false)
    {column : Nat} (hcolumn : ∀ c ∈ cols.head?, c ≤ column) (hdepth : cols.length < depthLimit)
    {before after : List Token} (hqueue : t.queue = before ++ after) (kind : TokenKind) (m : Mark) :
    ∃ indent indents, indent :: indents = Tokenizer.outer (enterColumn cols column) ∧
      (roll column (some (t.taken + before.length)) kind m).run t = .ok ((),
        { t with
          indent, indents
          queue := before ++ ((if cols.head? = some column then [] else [⟨kind, m⟩]) ++
            after) }) := by
  by_cases hhead : cols.head? = some column
  · refine ⟨t.indent, t.indents, by rw [enterColumn, if_pos hhead, hstack], ?_⟩
    have hle : ¬ t.indent < column := by
      cases cols with
      | nil => cases hhead
      | cons c cols =>
        obtain rfl : c = column := by simpa using hhead
        have hindent : t.indent = c := (List.cons.inj hstack).1
        omega
    rw [roll, run_get_bind, if_neg (by simp [hle]), run_pure_ok, if_pos hhead, List.nil_append,
      ← hqueue]
  · refine ⟨column, t.indent :: t.indents, by rw [enterColumn, if_neg hhead, hstack]; rfl, ?_⟩
    have hlt : t.indent < column := by
      cases cols with
      | nil =>
        have hindent : t.indent = -1 := (List.cons.inj hstack).1
        omega
      | cons c cols =>
        have hindent : t.indent = c := (List.cons.inj hstack).1
        have hle := hcolumn c rfl
        have hne : c ≠ column := by simpa using hhead
        omega
    have hlength : (t.indent :: t.indents).length = cols.length + 1 := by
      rw [hstack]
      simp [Tokenizer.outer]
    rw [roll, run_get_bind, if_pos (by simp [hflow, hlt])]
    dsimp only
    rw [if_neg (by omega), if_neg hhead]
    have hpush := Tokenizer.pushAt_eq
      (t := { t with indent := (column : Int), indents := t.indent :: t.indents }) hqueue kind m
    exact congrArg (fun t' => Except.ok ((), t')) hpush

/-- A colon makes the token before it a key. -/
theorem value_run {column : Nat} (h : t.Expects cols column) (hcolumn : ∀ c ∈ cols.head?, c ≤ column)
    (hdepth : cols.length < depthLimit) {q : List TokenKind} {kind : TokenKind}
    (hkinds : t.kinds = q ++ [kind]) :
    ∃ t', value.run t = .ok ((), t') ∧ t'.Calm (enterColumn cols column) ∧
      t'.kinds = q ++ ((if cols.head? = some column then [] else [.blockMappingStart]) ++
        [.key, kind, .value]) ∧
      t'.input = t.input.skip ∧ t'.keyAllowed = false ∧ t'.started = t.started ∧
        t'.settled = t.settled ∧
      t'.taken = t.taken := by
  obtain ⟨before, last, hqueue, hq, hlast⟩ := List.map_eq_append_iff.mp hkinds
  obtain ⟨tok, rfl, rfl⟩ : ∃ tok, last = [tok] ∧ tok.kind = kind := by
    cases last with
    | nil => cases hlast
    | cons tok rest =>
      obtain ⟨hkind, hrest⟩ := List.cons.inj hlast
      exact ⟨tok, by rw [List.map_eq_nil_iff.mp hrest], hkind⟩
  subst hq
  obtain ⟨m, state, hslots, hstate, rfl, hreaches⟩ := h.slots
  have hposition : t.count - 1 = t.taken + before.length := by
    rw [Tokenizer.count, hqueue]
    simp
  have hflow : t.inFlow = false := by simp [Tokenizer.inFlow, hslots]
  have hslot : t.slot = ⟨t.taken + before.length, m, state⟩ := by
    simp [Tokenizer.slot, Tokenizer.slotAt, Tokenizer.depth, hslots, hposition]
  rw [value, run_get_bind, run_bind_ok (isLive_run h), if_pos rfl, run_modify_bind, hslot,
    Tokenizer.pushAt_eq hqueue]
  obtain ⟨indent, indents, hstack, hroll⟩ := roll_run
    (t := { t with queue := before ++ ⟨.key, m⟩ :: [tok] }) h.stack hflow hcolumn hdepth rfl
      .blockMappingStart m
  rw [run_bind_ok hroll, run_modify_bind, run_bind_ok (allowKey_run false)]
  refine ⟨_, rfl, ⟨hstack, ⟨t.taken + before.length, m, ?_⟩, fun k => ?_⟩, ?_, rfl, rfl, rfl,
    rfl, rfl⟩
  · simp [Tokenizer.push, Tokenizer.release, Tokenizer.setState, Tokenizer.depth, hslots, hposition]
  · by_cases hk : k = t.count - 1
    · simp [Tokenizer.push, Tokenizer.release, Tokenizer.setState, hk, hposition]
    · have hheld := h.held k hk
      simp [Tokenizer.push, Tokenizer.release, Tokenizer.setState, Std.HashMap.getElem?_erase, hheld]
  · by_cases hhead : cols.head? = some m.column <;>
      simp [Tokenizer.kinds, Tokenizer.push, Tokenizer.release, Tokenizer.setState, hhead]

/-- The end of the stream, with the ends of all collections. -/
theorem streamEnd_run (h : t.Calm cols) (hinput : t.input.Shows size 0 m []) :
    ∃ t', streamEnd.run t = .ok ((), t') ∧ t'.started = t.started ∧ t'.Calm [] ∧
      (∃ m, t'.input.Shows size 0 m []) ∧
      t'.kinds = t.kinds ++ (List.replicate cols.length .blockEnd ++ [.streamEnd]) := by
  obtain ⟨t₁, ht₁⟩ : ∃ t₁ : Tokenizer,
      t₁ = { t with input := { t.input with mark := t.mark.nextLine } } :=
    ⟨_, rfl⟩
  have hcalm : t₁.Calm cols := by
    rw [ht₁]
    exact ⟨h.stack, h.slots, h.held⟩
  have hshows : t₁.input.Shows size 0 t₁.mark [] := by
    rw [ht₁]
    exact { hinput with mark := rfl }
  have hstep : streamEnd.run t = (do
      unroll (-1) t₁.mark
      dropKey
      allowKey false
      push .streamEnd t₁.mark : Fetch Unit).run t₁ := by
    rw [ht₁]
    rfl
  obtain ⟨n, indent, indents, -, hall, hstack, hunroll⟩ := unrollFrom_eq hcalm.stack (-1) t₁.mark
  obtain rfl := hall (by decide)
  rw [List.drop_length] at hstack
  have hcalm' : Tokenizer.Calm (unrollFrom (-1) t₁.mark t₁.indents t₁) [] := by
    rw [hunroll]
    exact ⟨hstack, hcalm.slots, hcalm.held⟩
  rw [hstep, run_bind_ok (unroll_run (inFlow_eq_false hcalm) _ _), run_bind_ok (dropKey_run hcalm'),
    run_bind_ok (allowKey_run false), push_run, hunroll]
  refine ⟨_, rfl, by rw [ht₁]; rfl, ⟨hstack, hcalm.slots, hcalm.held⟩, ⟨t₁.mark, hshows⟩, ?_⟩
  simp [Tokenizer.kinds, Tokenizer.push, ht₁]

theorem here_run_end (hinput : t.input.Shows size 0 m []) :
    ∃ j, j.Shows size 4 m [] ∧ here.run t = streamEnd.run { t with input := j } := by
  obtain ⟨j, hneed, hj⟩ := hinput.need 4
  have hhead : j.head = endChar := hj.head_eq
  refine ⟨j, hj, ?_⟩
  rw [here, run_bind_ok (scan_run hneed), run_get_bind]
  dsimp only
  rw [if_pos (by simp [hhead])]

theorem next_end {cs : List Char} {m' : Mark} {keyAllowed : Bool} (hstarted : t.started = true)
    (hcalm : t.Calm cols) (hshows : t.input.Shows size 0 m cs)
    (hto : ∀ i : Input, i.Shows size 0 m cs → ∀ fuel,
      ∃ j, (Scan.toNextToken false (fuel + 2) t.keyAllowed).run i = .ok (keyAllowed, j) ∧
        j.Shows size 1 m' []) :
    ∃ t', next.run t = .ok ((), t') ∧ t'.started = true ∧ t'.Calm [] ∧
      (∃ m, t'.input.Shows size 0 m []) ∧
      t'.kinds = t.kinds ++ (List.replicate cols.length .blockEnd ++ [.streamEnd]) := by
  obtain ⟨j, m₀, hj, hnext⟩ := next_run hstarted (inFlow_eq_false hcalm) hshows hto
  obtain ⟨n, indent, indents, hn, -, hstack, hunroll⟩ :=
    unrollFrom_eq (t := { t with input := j, keyAllowed }) hcalm.stack m'.column m₀
  obtain ⟨k, hk, hhere⟩ := here_run_end (m := m')
    (t := { t with
      input := j, keyAllowed, indent, indents, queue :=
        t.queue ++ List.replicate n ⟨.blockEnd, m₀⟩ }) hj
  obtain ⟨t', hrun, hstarted', hcalm', hinput', hkinds⟩ := streamEnd_run
    (t := { t with
      input := k, keyAllowed, indent, indents, queue := t.queue ++ List.replicate n ⟨.blockEnd, m₀⟩ })
    ⟨hstack, hcalm.slots, hcalm.held⟩ (hk.mono (Nat.zero_le 4))
  refine ⟨t', ?_, hstarted'.trans hstarted, hcalm', hinput', ?_⟩
  · rw [hnext, show unrollFrom m'.column m₀ t.indents { t with input := j, keyAllowed } =
      _ from hunroll, hhere, hrun]
  · have hsum : List.replicate n TokenKind.blockEnd ++ List.replicate (cols.drop n).length .blockEnd =
        List.replicate cols.length .blockEnd := by
      rw [List.replicate_append_replicate, List.length_drop, Nat.add_sub_cancel' hn]
    rw [hkinds, ← hsum]
    simp [Tokenizer.kinds, List.append_assoc, - List.replicate_append_replicate]

/-- Behind a token that is no dash a comment is looked for. -/
theorem comment_run {cs : List Char} (hinput : t.input.Shows size 0 m cs)
    (hcs : nextOf (cs.dropWhile isBlank) ≠ '#') (hlast : t.kinds.getLast? ≠ some .blockEntry) :
    ∃ j, j.Shows size 0 m cs ∧
      (do if ((← get).queue.getLast?.map Token.kind) != some .blockEntry then
            scan Scan.skipLineComment
        : Fetch Unit).run t = .ok ((), { t with input := j }) := by
  obtain ⟨j, hskip, hj⟩ := hinput.skipLineComment hcs
  refine ⟨j, hj, ?_⟩
  rw [Tokenizer.kinds, List.getLast?_map] at hlast
  rw [run_get_bind, if_pos (by simpa using hlast), scan_run hskip]

end Fetch

namespace Tokenizer.Pending

variable {t : Tokenizer} {size : Nat} {cols : List Nat} {ls : List Line} {kinds : List TokenKind}

theorem of_line (hstarted : t.started = true) (hcalm : t.Calm cols) (hlayout : Layout cols ls)
    (hinput : t.Before size ls) (hkinds : kinds = t.kinds ++ kindsFrom cols ls) :
    t.Pending size kinds :=
  hkinds ▸ .line hstarted hcalm hlayout hinput

theorem of_colon {l : Line} {q : List TokenKind} (hstarted : t.started = true)
    (hexpects : t.Expects cols l.column) (hlayout : Layout cols (l :: ls))
    (hkinds : t.kinds = q ++ [.scalar (encodeChars l.key) true])
    (hinput : ∃ m, l.column ≤ m.column ∧
    t.input.Shows size 0 m (':' :: behindColon l.value (textOf ls)))
    (heq : kinds = q ++ kindsFrom cols (l :: ls)) : t.Pending size kinds :=
  heq ▸ .colon hstarted hexpects hlayout hkinds hinput

theorem isBlankOrEnd_behindColon (value : Option ScalarForm) (rest : List Char) :
    isBlankOrEnd (nextOf (behindColon value rest)) = true := by
  cases value <;> rfl

/-- A key is cut where a line starts. -/
theorem next_key {l : Line} (hstarted : t.started = true) (hcalm : t.Calm cols)
    (hlayout : Layout cols (l :: ls)) (hinput : t.Before size (l :: ls)) :
    ∃ t', Fetch.next.run t = .ok ((), t') ∧ t'.Pending size (t.kinds ++ kindsFrom cols (l :: ls)) ∧
      t.queue.length < t'.queue.length := by
  cases hlayout with
  | cons hl hcolumn hdepth hnext hls =>
  obtain ⟨m, cs, m', hshows, hm', hto⟩ := hinput.toNextToken (.cons hl hcolumn hdepth hnext hls)
  have hindent : t.indent ≤ m'.column := by
    rw [hm']
    exact indent_le hcalm.stack hcolumn
  have hfirst := hl.next (':' :: behindColon l.value (textOf ls))
  have hflow := Fetch.inFlow_eq_false hcalm
  obtain ⟨j, hj, hrun⟩ := Fetch.next_token hstarted hflow hshows hto hindent
    (ne_of_isAlpha hfirst.1 (by decide)) (.inr ⟨ne_of_isAlpha hfirst.1 (by decide),
      ne_of_isAlpha hfirst.1 (by decide), ne_of_isAlpha hfirst.1 (by decide)⟩)
  obtain ⟨state, k, hstate, hk, hplain⟩ := Fetch.plainScalar_run_key (m := m')
    (t := { t with input := j, keyAllowed := true }) ⟨hcalm.stack, hcalm.slots, hcalm.held⟩ rfl hl
    (hj.mono (Nat.zero_le 4)) (isBlankOrEnd_behindColon l.value (textOf ls))
  obtain ⟨r, hr, hcomment⟩ := Fetch.comment_run (m := m'.forward l.key.length)
    (t := { t with
      slots := #[⟨t.count, m', state⟩], held := t.held.insert t.count 0, keyAllowed := false,
        input := k
      queue := t.queue ++ [⟨.scalar (encodeChars l.key) true, m'⟩] })
    (hk.mono (Nat.zero_le 2)) (by simp [isBlank]) (by simp [Tokenizer.kinds])
  have htoken : (Fetch.tokenFrom (nextOf (bodyOf (l :: ls))) (nextOf (bodyOf (l :: ls)).tail)).run
      { t with input := j, keyAllowed := true } = .ok ((), _) :=
    (Fetch.tokenFrom_plain (t := { t with input := j, keyAllowed := true }) hflow
      (.inl ⟨isBlankOrEnd_of_isAlpha hfirst.1, isIndicator_of_isAlpha hfirst.1⟩)).trans hplain
  refine ⟨_, (hrun.trans (run_bind_ok htoken)).trans hcomment, ?_, by simp⟩
  have hcount : ∀ tok : Token, t.taken + (t.queue ++ [tok]).length - 1 = t.count := fun tok => by
    simp [Tokenizer.count]
  refine of_colon hstarted ⟨hcalm.stack, ⟨m', state, ?_, hstate, hm', ?_⟩, fun n hn => ?_⟩
    (.cons hl hcolumn hdepth hnext hls) (by simp [Tokenizer.kinds]) ⟨_, ?_, hr⟩ rfl
  · simp [Tokenizer.count]
  · simpa [Tokenizer.reaches, Tokenizer.mark, hr.mark, Mark.forward] using hl.key.reach
  · have hne : t.count ≠ n := by
      rintro rfl
      exact hn (hcount _).symm
    simp [Std.HashMap.getElem?_insert, hne, hcalm.held n]
  · rw [show l.column = m'.column from hm'.symm]
    simp [Mark.forward]

theorem of_value {column : Nat} {v : ScalarForm} (hstarted : t.started = true) (hcalm : t.Calm cols)
    (hallowed : t.keyAllowed = false) (hlayout : Layout cols ls) (hcolumn : cols.head? = some column)
    (hnext : firstColumn ls ≤ column) (hv : v.Readable)
    (hinput : ∃ m, column ≤ m.column ∧
    t.input.Shows size 0 m (' ' :: (v.source ++ '\n' :: textOf ls)))
    (hkinds : kinds = t.kinds ++ v.kind :: kindsFrom cols ls) : t.Pending size kinds :=
  hkinds ▸ .value hstarted hcalm hallowed hlayout hcolumn hnext hv hinput

theorem head?_enterColumn (cols : List Nat) (column : Nat) :
    (enterColumn cols column).head? = some column := by
  unfold enterColumn
  split
  · assumption
  · rfl

/-- No comment is found before lines. -/
theorem comment_before (hlayout : Layout cols ls) (hbefore : t.Before size ls)
    (hlast : t.kinds.getLast? ≠ some .blockEntry) :
    ∃ t', (do if ((← get).queue.getLast?.map Token.kind) != some .blockEntry then
            Fetch.scan Scan.skipLineComment
        : Fetch Unit).run t = .ok ((), t') ∧ t'.Before size ls ∧ ∃ j, t' = { t with input := j } := by
  rcases hbefore with ⟨m, hshows⟩ | ⟨m, hshows, hcolumn, hallowed⟩
  · obtain ⟨j, hj, hcomment⟩ := Fetch.comment_run hshows (by simp [isBlank]) hlast
    exact ⟨_, hcomment, .inl ⟨m, hj⟩, j, rfl⟩
  · obtain ⟨hspace, htab, hhash, -⟩ := hlayout.startsToken
    have hcs : nextOf ((bodyOf ls).dropWhile isBlank) ≠ '#' := by
      rwa [dropWhile_isBlank (by simp [isBlank, hspace, htab])]
    obtain ⟨j, hj, hcomment⟩ := Fetch.comment_run hshows hcs hlast
    exact ⟨_, hcomment, .inr ⟨m, hj, hcolumn, hallowed⟩, j, rfl⟩

/-- A colon is cut behind a key. -/
theorem next_colon {l : Line} {q : List TokenKind} (hstarted : t.started = true)
    (hexpects : t.Expects cols l.column) (hlayout : Layout cols (l :: ls))
    (hkinds : t.kinds = q ++ [.scalar (encodeChars l.key) true])
    (hinput : ∃ m, l.column ≤ m.column ∧
    t.input.Shows size 0 m (':' :: behindColon l.value (textOf ls))) :
    ∃ t', Fetch.next.run t = .ok ((), t') ∧ t'.Pending size (q ++ kindsFrom cols (l :: ls)) ∧
      t.queue.length < t'.queue.length := by
  cases hlayout with
  | cons hl hcolumn hdepth hnext hls =>
  obtain ⟨m, hm, hshows⟩ := hinput
  obtain ⟨place, state, hslots, hstate, hplace, hreaches⟩ := hexpects.slots
  have hflow : t.inFlow = false := by simp [Tokenizer.inFlow, hslots]
  have hindent : t.indent ≤ m.column :=
      (indent_le hexpects.stack hcolumn).trans (by exact_mod_cast hm)
  obtain ⟨j, hj, hrun⟩ := Fetch.next_token hstarted hflow hshows
    (fun i hi fuel => Input.Shows.toNextToken (a := 0) ⟨by simp, by simp, by simp, by rfl⟩ hi
      (fuel + 1)
      t.keyAllowed) hindent (by simp [endChar]) (.inr ⟨by simp, by simp, by simp⟩)
  have hreaches' : Tokenizer.reaches { t with input := j } place = true := by
    simpa [Tokenizer.reaches, Tokenizer.mark, hj.mark, hshows.mark] using hreaches
  obtain ⟨t₁, hvalue, hcalm, hkinds₁, hinput₁, hallowed, hstarted₁, -, -⟩ := Fetch.value_run
    (t := { t with input := j })
      ⟨hexpects.stack, ⟨place, state, hslots, hstate, hplace, hreaches'⟩, hexpects.held⟩
    hcolumn hdepth hkinds
  have hbehind : nextOf ((behindColon l.value (textOf ls)).dropWhile isBlank) ≠ '#' := by
    cases hv : l.value with
    | none => simp [behindColon, isBlank]
    | some v =>
      obtain ⟨hblank, hhash⟩ := (hl.value v (by simp [hv])).next ('\n' :: textOf ls)
      rw [behindColon, List.dropWhile_cons_of_pos (by rfl),
        dropWhile_isBlank (isBlank_eq_false hblank)]
      exact hhash
  have hskip : t₁.input.Shows size 0 m.right (behindColon l.value (textOf ls)) := by
    rw [hinput₁]
    exact hj.skip.mono (Nat.zero_le 3)
  obtain ⟨r, hr, hcomment⟩ := Fetch.comment_run hskip hbehind (by simp [hkinds₁])
  have htoken := (Fetch.tokenFrom_colon (isBlankOrEnd_behindColon l.value (textOf ls))).trans hvalue
  refine ⟨_, (hrun.trans (run_bind_ok htoken)).trans hcomment, ?_, ?_⟩
  · cases hv : l.value with
    | none =>
      rw [hv] at hr
      refine of_line (hstarted₁.trans hstarted) ⟨hcalm.stack, hcalm.slots, hcalm.held⟩ hls
        (.inl ⟨_, hr⟩) ?_
      rw [show Tokenizer.kinds { t₁ with input := r } = t₁.kinds from rfl, hkinds₁, kindsFrom,
        Line.kinds, hv]
      simp
    | some v =>
      rw [hv] at hr
      refine of_value (hstarted₁.trans hstarted) ⟨hcalm.stack, hcalm.slots, hcalm.held⟩ hallowed hls
        (head?_enterColumn cols l.column) (hnext (by simp [hv])) (hl.value v (by simp [hv]))
        ⟨_, by simp [Mark.right]; omega, hr⟩ ?_
      rw [show Tokenizer.kinds { t₁ with input := r } = t₁.kinds from rfl, hkinds₁, kindsFrom,
        Line.kinds, hv]
      simp
  · have hlength := congrArg List.length hkinds
    have hlength₁ := congrArg List.length hkinds₁
    simp [Tokenizer.kinds] at hlength hlength₁ ⊢
    omega

/-- A scalar is cut behind a colon. -/
theorem next_scalar {column : Nat} {v : ScalarForm} (hstarted : t.started = true)
    (hcalm : t.Calm cols)
    (hallowed : t.keyAllowed = false) (hlayout : Layout cols ls) (hcolumn : cols.head? = some column)
    (hnext : firstColumn ls ≤ column) (hv : v.Readable)
    (hinput : ∃ m, column ≤ m.column ∧
    t.input.Shows size 0 m (' ' :: (v.source ++ '\n' :: textOf ls))) :
    ∃ t', Fetch.next.run t = .ok ((), t') ∧ t'.Pending size (t.kinds ++ v.kind :: kindsFrom cols ls) ∧
      t.queue.length < t'.queue.length := by
  obtain ⟨m, hm, hshows⟩ := hinput
  have hflow := Fetch.inFlow_eq_false hcalm
  have hindent : t.indent = column := by
    obtain ⟨c, rest, rfl⟩ : ∃ c rest, cols = c :: rest := by
      cases cols with
      | nil => cases hcolumn
      | cons c rest => exact ⟨c, rest, rfl⟩
    obtain rfl : c = column := by simpa using hcolumn
    exact (List.cons.inj hcalm.stack).1
  obtain ⟨hblank, hhash⟩ := hv.next ('\n' :: textOf ls)
  have hstarts : StartsToken (nextOf (v.source ++ '\n' :: textOf ls)) := by
    have := isBlank_eq_false hblank
    simp only [isBlank, Bool.or_eq_false_iff, beq_eq_false_iff_ne] at this
    exact ⟨this.1, this.2, hhash, isBreak_eq_false hblank⟩
  have hend : nextOf (v.source ++ '\n' :: textOf ls) ≠ endChar := by
    intro heq
    rw [heq] at hblank
    exact absurd hblank (by decide)
  obtain ⟨j, hj, hrun⟩ := Fetch.next_token hstarted hflow hshows
    (fun i hi fuel => Input.Shows.toNextToken (a := 1) hstarts hi (fuel + 1) t.keyAllowed)
    (by rw [hindent]; simp [Mark.forward]; omega) hend (.inl (by simp [Mark.forward]))
  obtain ⟨t₁, htoken, hbefore, k, keyAllowed, rfl⟩ := Fetch.tokenFrom_scalar
    (t := { t with input := j, keyAllowed := t.keyAllowed }) hflow hallowed hv hindent hlayout hnext
    (by simp [Mark.forward]; omega) (hj.mono (by omega))
  obtain ⟨t₂, hcomment, hbefore', r, rfl⟩ :=
      comment_before hlayout hbefore (by simp [Tokenizer.kinds, ScalarForm.kind])
  refine ⟨_, (hrun.trans (run_bind_ok htoken)).trans hcomment, ?_, by simp⟩
  exact of_line hstarted ⟨hcalm.stack, hcalm.slots, hcalm.held⟩ hlayout hbefore'
    (by simp [Tokenizer.kinds])

/-- **Cutting a token** changes nothing of what is still to come. -/
theorem next (h : t.Pending size kinds) :
    ∃ t', Fetch.next.run t = .ok ((), t') ∧ t'.Pending size kinds ∧
      t.queue.length < t'.queue.length := by
  cases h with
  | @fresh ls hstarted hcalm hlayout hcolumn hallowed hqueue hinput =>
    obtain ⟨j, hneed, hj⟩ := hinput.need 1
    have hbody : j.Shows size 0 .start (bodyOf ls) := by
      rw [textOf_eq, hcolumn] at hj
      exact hj.mono (Nat.zero_le 1)
    refine ⟨{ t with input := j, started := true, queue := t.queue ++ [⟨.streamStart, j.mark⟩] },
      ?_, ?_, by simp⟩
    · rw [Fetch.next, run_bind_ok (Fetch.scan_run hneed), run_get_bind, if_pos (by simp [hstarted]),
        run_set_bind]
      rfl
    · exact of_line rfl ⟨hcalm.stack, hcalm.slots, hcalm.held⟩ hlayout
        (.inr ⟨.start, hbody, hcolumn.symm, hallowed⟩) (by simp [Tokenizer.kinds, hqueue])
  | @line cols ls hstarted hcalm hlayout hinput =>
    cases ls with
    | nil =>
      obtain ⟨m, cs, m', hshows, hcolumn, hto⟩ := hinput.toNextToken hlayout
      obtain ⟨t', hrun, hstarted', hcalm', hinput', hkinds⟩ :=
          Fetch.next_end hstarted hcalm hshows hto
      refine ⟨t', hrun, .ended (n := 0) hstarted' hcalm' hinput'
        (by simpa [kindsFrom] using hkinds), ?_⟩
      have hlength := congrArg List.length hkinds
      simp [Tokenizer.kinds] at hlength
      omega
    | cons l ls => exact next_key hstarted hcalm hlayout hinput
  | colon hstarted hexpects hlayout hkinds hinput =>
      exact next_colon hstarted hexpects hlayout hkinds hinput
  | value hstarted hcalm hallowed hlayout hcolumn hnext hv hinput =>
    exact next_scalar hstarted hcalm hallowed hlayout hcolumn hnext hv hinput
  | @ended _ n hstarted hcalm hinput hkinds =>
    obtain ⟨m, hshows⟩ := hinput
    obtain ⟨t', hrun, hstarted', hcalm', hinput', hkinds'⟩ := Fetch.next_end hstarted hcalm hshows
      fun i hi fuel => Input.Shows.toNextToken (a := 0)
        ⟨by decide, by decide, by decide, by decide⟩ hi (fuel + 1)
        t.keyAllowed
    refine ⟨t', hrun, .ended (n := n + 1) hstarted' hcalm' hinput' ?_, ?_⟩
    · rw [hkinds', hkinds, List.replicate_succ']
      simp
    · have hlength := congrArg List.length hkinds'
      simp [Tokenizer.kinds] at hlength
      omega

/-! ## Taking tokens -/

/-- The first token is held back only while it could be a key, and then it is the last one. -/
theorem held_taken (h : t.Pending size kinds) (hlength : 3 ≤ t.queue.length) :
    t.held[t.taken]? = none := by
  cases h with
  | fresh _ hcalm => exact hcalm.held t.taken
  | line _ hcalm => exact hcalm.held t.taken
  | colon _ hexpects => exact hexpects.held t.taken (by rw [Tokenizer.count]; omega)
  | value _ hcalm => exact hcalm.held t.taken
  | ended _ hcalm => exact hcalm.held t.taken

theorem isUnsettled (h : t.Pending size kinds) :
    Fetch.isUnsettled.run t = .ok (decide (t.queue.length < 3), t) := by
  rw [Fetch.isUnsettled, run_get_bind]
  split
  · rename_i a b c rest hqueue
    rw [h.held_taken (by simp [hqueue])]
    simp [hqueue]
    rfl
  · rename_i hqueue
    have hlength : t.queue.length < 3 := by
      rcases hq : t.queue with _ | ⟨a, _ | ⟨b, _ | ⟨c, rest⟩⟩⟩
      · simp
      · simp
      · simp
      · exact absurd hq (hqueue a b c rest)
    simp [hlength]
    rfl

theorem settle (h : t.Pending size kinds) (fuel : Nat) (hfuel : 3 ≤ t.queue.length + fuel) :
    ∃ t', (Fetch.settle fuel).run t = .ok ((), t') ∧ t'.Pending size kinds ∧ 3 ≤ t'.queue.length := by
  induction fuel generalizing t with
  | zero => exact ⟨t, rfl, h, hfuel⟩
  | succ fuel ih =>
    rw [Fetch.settle, run_bind_ok h.isUnsettled]
    by_cases hlength : t.queue.length < 3
    · obtain ⟨t₁, hnext, h₁, hlt⟩ := h.next
      obtain ⟨t₂, hrest, h₂, hlength₂⟩ := ih h₁ (by omega)
      exact ⟨t₂, by rw [if_pos (by simp [hlength]), run_bind_ok hnext, hrest], h₂, hlength₂⟩
    · exact ⟨t, by rw [if_neg (by simp [hlength])]; rfl, h, by omega⟩

theorem mark_settled (h : t.Pending size kinds) (b : Bool) :
    Pending { t with settled := b } size kinds := by
  cases h with
  | fresh hstarted hcalm hlayout hcolumn hallowed hqueue hinput =>
    exact .fresh hstarted
      ⟨hcalm.stack, hcalm.slots, hcalm.held⟩ hlayout hcolumn hallowed hqueue hinput
  | line hstarted hcalm hlayout hinput =>
    exact of_line hstarted ⟨hcalm.stack, hcalm.slots, hcalm.held⟩ hlayout hinput rfl
  | colon hstarted hexpects hlayout hkinds hinput =>
    exact of_colon hstarted ⟨hexpects.stack, hexpects.slots, hexpects.held⟩ hlayout hkinds hinput rfl
  | value hstarted hcalm hallowed hlayout hcolumn hnext hv hinput =>
    exact of_value hstarted
      ⟨hcalm.stack, hcalm.slots, hcalm.held⟩ hallowed hlayout hcolumn hnext hv hinput rfl
  | ended hstarted hcalm hinput hkinds =>
    exact .ended hstarted ⟨hcalm.stack, hcalm.slots, hcalm.held⟩ hinput hkinds

/-- The stream is what it was, and nothing is wrong with its bytes. -/
theorem input_eq (h : t.Pending size kinds) : t.input.size = size ∧ t.input.overdue = none := by
  cases h with
  | fresh _ _ _ _ _ _ hinput => exact ⟨hinput.total, hinput.overdue⟩
  | line _ _ _ hinput =>
    rcases hinput with ⟨_, hinput⟩ | ⟨_, hinput, _⟩ <;> exact ⟨hinput.total, hinput.overdue⟩
  | colon _ _ _ _ hinput =>
    obtain ⟨_, _, hinput⟩ := hinput
    exact ⟨hinput.total, hinput.overdue⟩
  | value _ _ _ _ _ _ _ hinput =>
    obtain ⟨_, _, hinput⟩ := hinput
    exact ⟨hinput.total, hinput.overdue⟩
  | ended _ _ hinput =>
    obtain ⟨_, hinput⟩ := hinput
    exact ⟨hinput.total, hinput.overdue⟩

/-- With three tokens in the queue the first of them is the next one, and taking it leaves the
others. -/
theorem take_head {kind : TokenKind} {rest : List TokenKind} (h : t.Pending size (kind :: rest))
    (hlength : 3 ≤ t.queue.length) :
    ∃ tok queue, t.queue = tok :: queue ∧ tok.kind = kind ∧
      Pending { t with queue, taken := t.taken + 1, settled := false } size rest := by
  obtain ⟨tok, queue, hqueue⟩ :=
      List.exists_cons_of_ne_nil (l := t.queue) (by rintro h; simp [h] at hlength)
  refine ⟨tok, queue, hqueue, ?_⟩
  have hall : t.kinds = tok.kind :: queue.map Token.kind := by rw [Tokenizer.kinds, hqueue]; rfl
  generalize hkinds : kind :: rest = all at h
  cases h with
  | fresh _ _ _ _ _ hnil => rw [hnil] at hqueue; cases hqueue
  | line hstarted hcalm hlayout hinput =>
    rw [hall] at hkinds
    obtain ⟨rfl, rfl⟩ := List.cons.inj hkinds
    exact ⟨rfl, of_line hstarted ⟨hcalm.stack, hcalm.slots, hcalm.held⟩ hlayout hinput rfl⟩
  | @colon cols l ls q hstarted hexpects hlayout hkey hinput =>
    -- the key is not the first of the tokens
    obtain ⟨q, rfl, hq⟩ : ∃ q', q = tok.kind :: q' ∧
        queue.map Token.kind = q' ++ [.scalar (encodeChars l.key) true] := by
      rw [hall] at hkey
      cases q with
      | nil =>
        have hnil : queue = [] := List.map_eq_nil_iff.mp (List.cons.inj hkey).2
        simp [hqueue, hnil] at hlength
      | cons k q =>
        obtain ⟨rfl, hq⟩ := List.cons.inj hkey
        exact ⟨q, rfl, hq⟩
    obtain ⟨rfl, rfl⟩ := List.cons.inj hkinds
    have hcount : t.taken + 1 + queue.length = t.count := by
      rw [Tokenizer.count, hqueue, List.length_cons]
      omega
    refine ⟨rfl, of_colon hstarted ⟨hexpects.stack, ?_, ?_⟩ hlayout hq hinput rfl⟩
    · rw [Tokenizer.count, hcount]
      exact hexpects.slots
    · rw [Tokenizer.count, hcount]
      exact hexpects.held
  | value hstarted hcalm hallowed hlayout hcolumn hnext hv hinput =>
    rw [hall] at hkinds
    obtain ⟨rfl, rfl⟩ := List.cons.inj hkinds
    exact ⟨rfl, of_value hstarted
      ⟨hcalm.stack, hcalm.slots, hcalm.held⟩ hallowed hlayout hcolumn hnext hv
      hinput rfl⟩
  | ended hstarted hcalm hinput heq =>
    rw [← hkinds, hall] at heq
    obtain ⟨rfl, hrest⟩ := List.cons.inj heq
    exact ⟨rfl, .ended hstarted ⟨hcalm.stack, hcalm.slots, hcalm.held⟩ hinput hrest⟩

end Tokenizer.Pending

namespace Tokenizer

/-- What a tokenizer is still to give. Where the next token is settled there are enough others. -/
structure Delivers (t : Tokenizer) (size : Nat) (kinds : List TokenKind) : Prop where
  pending : t.Pending size kinds
  settled : t.settled = true → 3 ≤ t.queue.length

namespace Delivers

variable {t : Tokenizer} {size : Nat} {kind : TokenKind} {rest : List TokenKind}

/-- **The next token** is the first of those to come. -/
theorem peek (h : t.Delivers size (kind :: rest)) :
    ∃ tok t', Fetch.peek.run t = .ok (tok, t') ∧ tok.kind = kind ∧ t'.Delivers size (kind :: rest) ∧
      t'.settled = true := by
  by_cases hsettled : t.settled = true
  · obtain ⟨tok, queue, hqueue, hkind, -⟩ := h.pending.take_head (h.settled hsettled)
    refine ⟨tok, t, ?_, hkind, h, hsettled⟩
    rw [Fetch.peek, run_get_bind, if_neg (by simp [hsettled]), run_get_bind, hqueue]
    rfl
  · obtain ⟨t₁, hsettle, hpending, hlength⟩ := h.pending.settle (t.input.size + 8) (by omega)
    obtain ⟨tok, queue, hqueue, hkind, -⟩ := hpending.take_head hlength
    refine ⟨tok, { t₁ with settled := true }, ?_, hkind,
      ⟨hpending.mark_settled true, fun _ => hlength⟩, rfl⟩
    rw [Fetch.peek, run_get_bind, if_pos (by simp [hsettled]), run_bind_ok hsettle, run_modify_bind,
      run_get_bind]
    dsimp only
    rw [hqueue]
    rfl

/-- **Taking a token** leaves those behind it. -/
theorem skip (h : t.Delivers size (kind :: rest)) (hsettled : t.settled = true) :
    ∃ t', Fetch.skip.run t = .ok ((), t') ∧ t'.Delivers size rest := by
  obtain ⟨tok, queue, hqueue, -, hpending⟩ := h.pending.take_head (h.settled hsettled)
  refine ⟨{ t with queue, taken := t.taken + 1, settled := false }, ?_, hpending, by simp⟩
  rw [show queue = t.queue.drop 1 by rw [hqueue]; rfl]
  rfl

end Delivers

end Tokenizer

end TinyLang.Yaml
