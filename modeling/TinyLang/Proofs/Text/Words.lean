import TinyLang.Token
import TinyLang.Proofs.Text.Runes

/-!
# Words and tidy texts

A *word* is a text that is not empty and has no separator in it. A text is *tidy* if it is a
sequence of words with a single space between each two.

* `Text.isWord_of_mem_words`: what a text is cut into are words.
* `Text.words_join`: a tidy text is cut into the words that it was put together from.
* `Tidy.cut`: what stands between two ASCII bytes of a tidy text is, with these bytes, tidy.
* `Tidy.append_space`, `Tidy.append`: tidy texts put together are tidy.
* `Text.cut?_eq_some`, `Text.cut?_append`: a text is cut at the first occurrence of a byte.
* `Text.words_tokensOf`: the words of a line are the words of its text.
* `Text.map_number_tokenizeFrom`, `Text.map_words_tokenizeFrom`: the numbers and words of all lines.
-/

namespace TinyLang

/-- A text that is not empty and has no separator in it. -/
def IsWord (w : Text) : Prop := w ≠ [] ∧ ∀ r ∈ w.runes, r.isSeparator = false

instance : DecidablePred IsWord := fun w =>
  inferInstanceAs (Decidable (w ≠ [] ∧ ∀ r ∈ w.runes, r.isSeparator = false))

/-- The byte of the space that stands between words. -/
def spaceByte : UInt8 := 32

/-- An ASCII byte that separates no words. -/
def IsPlain (b : UInt8) : Prop := b < 0x80 ∧ separatesWords b.toNat = false

namespace Text

/-! ## Cutting a text into words -/

/-- Cutting runes into words in front of other words. -/
theorem foldr_addToWords (rs : List Rune) (ws : List Text) :
    rs.foldr addToWords (false, ws) =
      ((rs.foldr addToWords (false, [])).1, (rs.foldr addToWords (false, [])).2 ++ ws) ∧
    ((rs.foldr addToWords (false, [])).1 = true → (rs.foldr addToWords (false, [])).2 ≠ []) := by
  induction rs with
  | nil => exact ⟨rfl, nofun⟩
  | cons r rs ih =>
    obtain ⟨heq, hne⟩ := ih
    rw [List.foldr_cons, List.foldr_cons, heq]
    rcases hst : rs.foldr addToWords (false, []) with ⟨joined, words⟩
    rw [hst] at hne
    unfold addToWords
    cases hsep : r.isSeparator with
    | true => exact ⟨rfl, nofun⟩
    | false =>
      cases joined with
      | false => exact ⟨rfl, fun _ => List.cons_ne_nil _ _⟩
      | true =>
        cases words with
        | nil => exact absurd rfl (hne rfl)
        | cons w words => exact ⟨rfl, fun _ => List.cons_ne_nil _ _⟩

theorem addToWords_separator {r : Rune} (h : r.isSeparator = true) (st : Bool × List Text) :
    addToWords r st = (false, st.2) := by
  simp only [addToWords, h, if_true]

/-- A rune that separates nothing is a word of its own or goes to the first word. -/
theorem addToWords_plain {r : Rune} (h : r.isSeparator = false) (joined : Bool) (ws : List Text) :
    addToWords r (joined, ws) = (true, r.bytes :: ws) ∨
      ∃ w ws', ws = w :: ws' ∧ addToWords r (joined, ws) = (true, (r.bytes ++ w) :: ws') := by
  cases joined with
  | false => exact .inl (by simp [addToWords, h])
  | true =>
    cases ws with
    | nil => exact .inl (by simp [addToWords, h])
    | cons w ws => exact .inr ⟨w, ws, rfl, by simp [addToWords, h]⟩

/-- A space separates the words before it from those behind it. -/
theorem words_append_space (a b : Text) : words (a ++ spaceByte :: b) = words a ++ words b := by
  have hspace : spaceByte < 0x80 := by decide
  have hsep : (⟨some spaceByte.toNat, [spaceByte]⟩ : Rune).isSeparator = true := by decide
  unfold words
  rw [runes_append a (.ascii hspace b), runes_ascii hspace, List.foldr_append, List.foldr_cons,
    addToWords_separator hsep, (foldr_addToWords a.runes _).1]

theorem words_nil : words [] = [] := rfl

theorem words_space (t : Text) : words (spaceByte :: t) = words t :=
  words_append_space [] t

/-- A word is its only word. -/
theorem words_of_isWord {w : Text} (h : IsWord w) : words w = [w] := by
  have hfold : ∀ rs : List Rune, rs ≠ [] → (∀ r ∈ rs, r.isSeparator = false) →
      rs.foldr addToWords (false, []) = (true, [ofRunes rs]) := by
    intro rs hne hsep
    induction rs with
    | nil => exact absurd rfl hne
    | cons r rs ih =>
      have hr : r.isSeparator = false := hsep r List.mem_cons_self
      rw [List.foldr_cons]
      cases rs with
      | nil => simp [addToWords, hr, ofRunes]
      | cons r' rs =>
        rw [ih (List.cons_ne_nil _ _) fun x hx => hsep x (List.mem_cons_of_mem _ hx)]
        simp [addToWords, hr, ofRunes]
  have hne : w.runes ≠ [] := by
    intro hnil
    apply h.1
    rw [← ofRunes_runes w, hnil]
    rfl
  unfold words
  rw [hfold w.runes hne h.2, ofRunes_runes]

theorem join_singleton (sep t : Text) : join sep [t] = t := rfl

theorem join_cons (sep t : Text) {ts : List Text} (h : ts ≠ []) :
    join sep (t :: ts) = t ++ sep ++ join sep ts := by
  cases ts with
  | nil => exact absurd rfl h
  | cons t' ts => rfl

theorem join_space_cons (w : Text) {ws : List Text} (h : ws ≠ []) :
    join " " (w :: ws) = w ++ spaceByte :: join " " ws := by
  rw [join_cons _ _ h, List.append_assoc]
  rfl

/-- **A tidy text is cut into the words it was put together from.** -/
theorem words_join {ws : List Text} (h : ∀ w ∈ ws, IsWord w) : words (join " " ws) = ws := by
  induction ws with
  | nil => rfl
  | cons w ws ih =>
    have hw := words_of_isWord (h w List.mem_cons_self)
    by_cases hnil : ws = []
    · subst hnil
      exact hw
    · rw [join_space_cons w hnil, words_append_space, hw,
        ih fun x hx => h x (List.mem_cons_of_mem _ hx)]
      rfl

/-- A rune that separates nothing makes a word, together with what follows it. -/
theorem isWord_cons {b : UInt8} {s w u : Text}
    (hbytes : (Rune.first b (s ++ (w ++ u))).bytes = b :: s)
    (hsep : (Rune.first b (s ++ (w ++ u))).isSeparator = false)
    (hw : ∀ r ∈ w.runes, r.isSeparator = false) (hu : StartsRune u) : IsWord (b :: s ++ w) := by
  rw [← List.append_assoc, Rune.first_append b (s ++ w) hu] at hbytes hsep
  have hrunes : runes (b :: s ++ w) = Rune.first b (s ++ w) :: runes w := by
    rw [List.cons_append, runes, runesFrom, hbytes, List.length_cons, Nat.add_sub_cancel,
      runesFrom_length]
  refine ⟨List.cons_ne_nil _ _, fun r hr => ?_⟩
  rw [hrunes] at hr
  rcases List.mem_cons.mp hr with rfl | hr
  · exact hsep
  · exact hw r hr

/-- What a text is cut into so far: words, the first of them at the head of the text if the text
does not start with a separator. -/
theorem foldr_addToWords_spec (t : Text) :
    (∀ w ∈ (t.runes.foldr addToWords (false, [])).2, IsWord w) ∧
    ((t.runes.foldr addToWords (false, [])).1 = true →
      ∃ w ws u, (t.runes.foldr addToWords (false, [])).2 = w :: ws ∧ t = w ++ u ∧ StartsRune u) ∧
    ((t.runes.foldr addToWords (false, [])).1 = false → StartsRune t) := by
  induction hn : t.length using Nat.strongRecOn generalizing t with
  | ind n ih =>
    cases t with
    | nil => exact ⟨nofun, nofun, fun _ => .nil⟩
    | cons b r =>
      obtain ⟨s, u, rfl, hbytes, hrunes⟩ := runes_cons b r
      have hlt : u.length < n := by
        rw [List.length_cons, List.length_append] at hn
        omega
      obtain ⟨hwords, hhead, hstart⟩ := ih u.length hlt u rfl
      rw [hrunes, List.foldr_cons]
      rcases hst : u.runes.foldr addToWords (false, []) with ⟨joined, ws⟩
      rw [hst] at hwords hhead hstart
      unfold addToWords
      cases hsep : (Rune.first b (s ++ u)).isSeparator with
      | true => exact ⟨hwords, nofun, fun _ => Rune.startsRune_of_separator hsep⟩
      | false =>
        cases joined with
        | false =>
          have hu : StartsRune u := hstart rfl
          have hword : IsWord (b :: s ++ []) := isWord_cons hbytes hsep nofun hu
          rw [List.append_nil, ← hbytes] at hword
          refine ⟨?_, fun _ => ⟨_, ws, u, rfl, by rw [hbytes]; rfl, hu⟩, nofun⟩
          intro w hw
          rcases List.mem_cons.mp hw with rfl | hw
          · exact hword
          · exact hwords w hw
        | true =>
          obtain ⟨w, ws', u', hws, rfl, hu'⟩ := hhead rfl
          dsimp only at hws
          subst hws
          have hfirst : IsWord w := hwords w List.mem_cons_self
          have hword : IsWord (b :: s ++ w) := isWord_cons hbytes hsep hfirst.2 hu'
          rw [← hbytes] at hword
          refine ⟨?_, fun _ => ⟨_, ws', u', rfl, ?_, hu'⟩, nofun⟩
          · intro x hx
            rcases List.mem_cons.mp hx with rfl | hx
            · exact hword
            · exact hwords x (List.mem_cons_of_mem _ hx)
          · rw [hbytes, List.append_assoc, List.cons_append]

/-- **The words of a text are words.** -/
theorem isWord_of_mem_words {t w : Text} (h : w ∈ words t) : IsWord w :=
  (foldr_addToWords_spec t).1 w h

/-- Cutting into words makes no new bytes. -/
theorem mem_of_mem_words {t w : Text} {b : UInt8} (hw : w ∈ words t) (hb : b ∈ w) : b ∈ t := by
  have hfold : ∀ rs : List Rune, ∀ w ∈ (rs.foldr addToWords (false, [])).2, b ∈ w →
      b ∈ ofRunes rs := by
    intro rs
    induction rs with
    | nil => nofun
    | cons r rs ih =>
      intro w hw hb
      have hcons : ofRunes (r :: rs) = r.bytes ++ ofRunes rs := rfl
      rw [hcons, List.mem_append]
      rw [List.foldr_cons] at hw
      rcases hst : rs.foldr addToWords (false, []) with ⟨joined, ws⟩
      rw [hst] at hw ih
      cases hsep : r.isSeparator with
      | true =>
        rw [addToWords_separator hsep] at hw
        exact .inr (ih w hw hb)
      | false =>
        rcases addToWords_plain hsep joined ws with heq | ⟨w', ws', rfl, heq⟩
        · rw [heq] at hw
          rcases List.mem_cons.mp hw with rfl | hw
          · exact .inl hb
          · exact .inr (ih w hw hb)
        · rw [heq] at hw
          rcases List.mem_cons.mp hw with rfl | hw
          · rcases List.mem_append.mp hb with hb | hb
            · exact .inl hb
            · exact .inr (ih w' List.mem_cons_self hb)
          · exact .inr (ih w (List.mem_cons_of_mem _ hw) hb)
  rw [← ofRunes_runes t]
  exact hfold t.runes w hw hb

theorem join_ne_nil {ws : List Text} (h : ∀ w ∈ ws, IsWord w) (hne : ws ≠ []) :
    join " " ws ≠ [] := by
  intro hnil
  apply hne
  rw [← words_join h, hnil, words_nil]

theorem mem_join {sep b : UInt8} {ts : List Text} (h : b ∈ join [sep] ts) :
    b = sep ∨ ∃ t ∈ ts, b ∈ t := by
  induction ts with
  | nil => cases h
  | cons t ts ih =>
    by_cases hnil : ts = []
    · subst hnil
      exact .inr ⟨t, List.mem_cons_self, h⟩
    · rw [join_cons _ _ hnil, List.mem_append, List.mem_append, List.mem_singleton] at h
      rcases h with (h | h) | h
      · exact .inr ⟨t, List.mem_cons_self, h⟩
      · exact .inl h
      · obtain h | ⟨t', ht', h⟩ := ih h
        · exact .inl h
        · exact .inr ⟨t', List.mem_cons_of_mem _ ht', h⟩

theorem join_append (sep : Text) {xs ys : List Text} (hx : xs ≠ []) (hy : ys ≠ []) :
    join sep (xs ++ ys) = join sep xs ++ sep ++ join sep ys := by
  induction xs with
  | nil => exact absurd rfl hx
  | cons x xs ih =>
    by_cases hnil : xs = []
    · subst hnil
      exact join_cons sep x hy
    · rw [List.cons_append, join_cons sep x (by simp [hnil]), ih hnil, join_cons sep x hnil]
      simp only [List.append_assoc]

end Text

/-! ## Parts of words -/

theorem IsPlain.isSeparator {q : UInt8} (h : IsPlain q) :
    (⟨some q.toNat, [q]⟩ : Rune).isSeparator = false := h.2

theorem IsPlain.ne_space {q : UInt8} (h : IsPlain q) : q ≠ spaceByte := by
  rintro rfl
  exact absurd h.2 (by decide)

theorem runes_around {q : UInt8} (h : IsPlain q) (a b : Text) :
    (a ++ q :: b).runes = a.runes ++ ⟨some q.toNat, [q]⟩ :: b.runes := by
  rw [Text.runes_append a (.ascii h.1 b), Text.runes_ascii h.1]

/-- The end of a word, from an ASCII byte on. -/
theorem IsWord.right {q : UInt8} (hq : IsPlain q) {a b : Text} (h : IsWord (a ++ q :: b)) :
    IsWord (q :: b) := by
  refine ⟨List.cons_ne_nil _ _, fun r hr => h.2 r ?_⟩
  rw [runes_around hq]
  rw [Text.runes_ascii hq.1] at hr
  exact List.mem_append_right _ hr

/-- The beginning of a word, up to an ASCII byte. -/
theorem IsWord.left {q : UInt8} (hq : IsPlain q) {a b : Text} (h : IsWord (a ++ q :: b)) :
    IsWord (a ++ [q]) := by
  refine ⟨by simp, fun r hr => h.2 r ?_⟩
  rw [runes_around hq] at hr ⊢
  rcases List.mem_append.mp hr with hr | hr
  · exact List.mem_append_left _ hr
  · obtain rfl := List.mem_singleton.mp hr
    exact List.mem_append_right _ List.mem_cons_self

theorem IsWord.snoc {q : UInt8} (hq : IsPlain q) {a : Text} (h : IsWord a) : IsWord (a ++ [q]) := by
  refine ⟨by simp, fun r hr => ?_⟩
  rw [runes_around hq] at hr
  rcases List.mem_append.mp hr with hr | hr
  · exact h.2 r hr
  · obtain rfl := List.mem_singleton.mp hr
    exact hq.isSeparator

/-- An ASCII byte in a word separates nothing. -/
theorem IsWord.plain {w : Text} (h : IsWord w) {b : UInt8} (hb : b ∈ w) (hascii : b < 0x80) :
    IsPlain b :=
  ⟨hascii, h.2 _ (Text.mem_runes_of_ascii hb hascii)⟩

/-! ## Tidy texts -/

/-- The text is a sequence of words with a single space between each two. -/
def Tidy (t : Text) : Prop := ∃ ws, (∀ w ∈ ws, IsWord w) ∧ t = Text.join " " ws

theorem IsWord.tidy {w : Text} (h : IsWord w) : Tidy w :=
  ⟨[w], by simpa using h, rfl⟩

theorem Tidy.append_space {a b : Text} (ha : Tidy a) (hb : Tidy b) (hane : a ≠ [])
    (hbne : b ≠ []) : Tidy (a ++ spaceByte :: b) := by
  obtain ⟨xs, hxs, rfl⟩ := ha
  obtain ⟨ys, hys, rfl⟩ := hb
  have hx : xs ≠ [] := by rintro rfl; exact hane rfl
  have hy : ys ≠ [] := by rintro rfl; exact hbne rfl
  refine ⟨xs ++ ys, fun w hw => (List.mem_append.mp hw).elim (hxs w) (hys w), ?_⟩
  rw [Text.join_append _ hx hy, List.append_assoc]
  rfl

/-- An ASCII byte may be put at the end. -/
theorem Tidy.snoc {q : UInt8} (hq : IsPlain q) {a : Text} (ha : Tidy a) (hane : a ≠ []) :
    Tidy (a ++ [q]) := by
  obtain ⟨ws, hws, rfl⟩ := ha
  induction ws with
  | nil => exact absurd rfl hane
  | cons w ws ih =>
    have hw : IsWord w := hws w List.mem_cons_self
    by_cases hnil : ws = []
    · subst hnil
      exact (hw.snoc hq).tidy
    · have hrest : ∀ x ∈ ws, IsWord x := fun x hx => hws x (List.mem_cons_of_mem _ hx)
      rw [Text.join_space_cons w hnil, List.append_assoc, List.cons_append]
      exact hw.tidy.append_space (ih hrest (Text.join_ne_nil hrest hnil)) hw.1 (by simp)

/-- The end of a tidy text, from an ASCII byte on. -/
theorem Tidy.right {q : UInt8} (hq : IsPlain q) {a b : Text} (h : Tidy (a ++ q :: b)) :
    Tidy (q :: b) := by
  obtain ⟨ws, hws, heq⟩ := h
  induction ws generalizing a with
  | nil => simp [Text.join] at heq
  | cons w ws ih =>
    have hw : IsWord w := hws w List.mem_cons_self
    have hrest : ∀ x ∈ ws, IsWord x := fun x hx => hws x (List.mem_cons_of_mem _ hx)
    by_cases hnil : ws = []
    · subst hnil
      have hword : IsWord (a ++ q :: b) := by
        rw [heq]
        exact hw
      exact (hword.right hq).tidy
    rw [Text.join_space_cons w hnil] at heq
    rcases List.append_eq_append_iff.mp heq with ⟨c, rfl, hc⟩ | ⟨c, rfl, hc⟩
    · -- the byte is in the first word
      cases c with
      | nil => exact absurd (List.cons.inj hc).1 hq.ne_space
      | cons x c =>
        obtain ⟨rfl, rfl⟩ := List.cons.inj hc
        exact (hw.right hq).tidy.append_space ⟨ws, hrest, rfl⟩ (List.cons_ne_nil _ _)
          (Text.join_ne_nil hrest hnil)
    · cases c with
      | nil => exact absurd (List.cons.inj hc).1.symm hq.ne_space
      | cons x c => exact ih hrest (List.cons.inj hc).2.symm

/-- The beginning of a tidy text, up to an ASCII byte. -/
theorem Tidy.left {q : UInt8} (hq : IsPlain q) {a b : Text} (h : Tidy (a ++ q :: b)) :
    Tidy (a ++ [q]) := by
  obtain ⟨ws, hws, heq⟩ := h
  induction ws generalizing a with
  | nil => simp [Text.join] at heq
  | cons w ws ih =>
    have hw : IsWord w := hws w List.mem_cons_self
    have hrest : ∀ x ∈ ws, IsWord x := fun x hx => hws x (List.mem_cons_of_mem _ hx)
    by_cases hnil : ws = []
    · subst hnil
      have hword : IsWord (a ++ q :: b) := by
        rw [heq]
        exact hw
      exact (hword.left hq).tidy
    rw [Text.join_space_cons w hnil] at heq
    rcases List.append_eq_append_iff.mp heq with ⟨c, rfl, hc⟩ | ⟨c, rfl, hc⟩
    · cases c with
      | nil => exact absurd (List.cons.inj hc).1 hq.ne_space
      | cons x c =>
        obtain ⟨rfl, rfl⟩ := List.cons.inj hc
        exact (hw.left hq).tidy
    · cases c with
      | nil => exact absurd (List.cons.inj hc).1.symm hq.ne_space
      | cons x c =>
        obtain ⟨rfl, htail⟩ := List.cons.inj hc
        rw [List.append_assoc, List.cons_append]
        exact hw.tidy.append_space (ih hrest htail.symm) hw.1 (by simp)

/-- **What stands between two ASCII bytes** of a tidy text is tidy, with these bytes. -/
theorem Tidy.cut {q q' : UInt8} (hq : IsPlain q) (hq' : IsPlain q') {a m b : Text}
    (h : Tidy (a ++ q :: (m ++ q' :: b))) : Tidy (q :: (m ++ [q'])) :=
  Tidy.left (a := q :: m) hq' (h.right hq)

/-- A tidy text has no ASCII separator but the space. -/
theorem Tidy.plain_or_space {t : Text} (h : Tidy t) {b : UInt8} (hb : b ∈ t) (hascii : b < 0x80) :
    b = spaceByte ∨ IsPlain b := by
  obtain ⟨ws, hws, rfl⟩ := h
  rcases Text.mem_join hb with h | ⟨w, hw, hb⟩
  · exact .inl h
  · exact .inr ((hws w hw).plain hb hascii)

theorem Tidy.no_newline {t : Text} (h : Tidy t) : Text.byte '\n' ∉ t := by
  intro hb
  rcases h.plain_or_space hb (by decide) with h | h
  · exact absurd h (by decide)
  · exact absurd h.2 (by decide)

/-! ## Pieces -/

namespace Text

theorem pieces_of_not_mem {sep : UInt8} {t : Text} (h : sep ∉ t) : pieces sep t = [t] := by
  induction t with
  | nil => rfl
  | cons b r ih =>
    rw [List.mem_cons, not_or] at h
    rw [pieces, if_neg (Ne.symm h.1), ih h.2]

theorem pieces_append {sep : UInt8} {a : Text} (h : sep ∉ a) (b : Text) :
    pieces sep (a ++ sep :: b) = a :: pieces sep b := by
  induction a with
  | nil => rw [List.nil_append, pieces, if_pos rfl]
  | cons x a ih =>
    rw [List.mem_cons, not_or] at h
    rw [List.cons_append, pieces, if_neg (Ne.symm h.1), ih h.2]

theorem pieces_ne_nil (sep : UInt8) (t : Text) : pieces sep t ≠ [] := by
  cases t with
  | nil => exact List.cons_ne_nil _ _
  | cons b r =>
    rw [pieces]
    split
    · exact List.cons_ne_nil _ _
    · split <;> exact List.cons_ne_nil _ _

/-- A piece stands in the text and has no cut in it. -/
theorem mem_pieces {sep : UInt8} {t p : Text} (h : p ∈ pieces sep t) :
    sep ∉ p ∧ ∃ a b, t = a ++ (p ++ b) := by
  by_cases hsep : sep ∈ t
  · obtain ⟨a, b, rfl, ha⟩ := List.eq_append_cons_of_mem hsep
    have hlt : b.length < (a ++ sep :: b).length := by
      rw [List.length_append, List.length_cons]
      omega
    rw [pieces_append ha] at h
    rcases List.mem_cons.mp h with rfl | h
    · exact ⟨ha, [], sep :: b, rfl⟩
    · obtain ⟨hp, x, y, rfl⟩ := mem_pieces h
      exact ⟨hp, a ++ sep :: x, y, by simp⟩
  · rw [pieces_of_not_mem hsep] at h
    obtain rfl := List.mem_singleton.mp h
    exact ⟨hsep, [], [], by simp⟩
termination_by t.length

/-- Pieces that are put together with what they are cut at are the pieces again. -/
theorem pieces_join {sep : UInt8} {ts : List Text} (hne : ts ≠ []) (h : ∀ t ∈ ts, sep ∉ t) :
    pieces sep (join [sep] ts) = ts := by
  induction ts with
  | nil => exact absurd rfl hne
  | cons t ts ih =>
    rw [List.forall_mem_cons] at h
    by_cases hnil : ts = []
    · subst hnil
      rw [join_singleton, pieces_of_not_mem h.1]
    · rw [join_cons _ _ hnil, List.append_assoc, List.singleton_append, pieces_append h.1,
        ih hnil h.2]

/-- The pieces of a text, put together with what they are cut at, are the text. -/
theorem join_pieces (sep : UInt8) (t : Text) : join [sep] (pieces sep t) = t := by
  induction t with
  | nil => rfl
  | cons b r ih =>
    rw [pieces]
    by_cases hb : b = sep
    · rw [if_pos hb, join_cons _ _ (pieces_ne_nil sep r), ih, hb]
      rfl
    · rw [if_neg hb]
      cases hps : pieces sep r with
      | nil => exact absurd hps (pieces_ne_nil sep r)
      | cons p ps =>
        rw [hps] at ih
        rw [← ih]
        cases ps <;> rfl

/-! ## Cutting once -/

theorem cut?_eq_some {sep : UInt8} {t a b : Text} (h : t.cut? sep = some (a, b)) :
    sep ∉ a ∧ t = a ++ sep :: b := by
  induction t generalizing a with
  | nil => cases h
  | cons x t ih =>
    rw [cut?] at h
    split at h
    next hx =>
      cases h
      exact ⟨List.not_mem_nil, by rw [hx]; rfl⟩
    next hx =>
      obtain ⟨⟨a', b'⟩, hcut, heq⟩ := Option.map_eq_some_iff.mp h
      cases heq
      obtain ⟨hsep, rfl⟩ := ih hcut
      exact ⟨by simp [hsep, Ne.symm hx], rfl⟩

theorem cut?_append {sep : UInt8} {a : Text} (h : sep ∉ a) (b : Text) :
    (a ++ sep :: b).cut? sep = some (a, b) := by
  induction a with
  | nil => rw [List.nil_append, cut?, if_pos rfl]
  | cons x a ih =>
    rw [List.mem_cons, not_or] at h
    rw [List.cons_append, cut?, if_neg (Ne.symm h.1), ih h.2]
    rfl

theorem cut?_eq_none {sep : UInt8} {t : Text} : t.cut? sep = none ↔ sep ∉ t := by
  constructor
  · intro h hmem
    obtain ⟨a, b, rfl, ha⟩ := List.eq_append_cons_of_mem hmem
    rw [cut?_append ha] at h
    cases h
  · intro h
    cases hcut : t.cut? sep with
    | none => rfl
    | some ab =>
      obtain ⟨-, rfl⟩ := cut?_eq_some (a := ab.1) (b := ab.2) hcut
      simp at h

/-! ## Lines -/

theorem foldr_addToTokens (number : Nat) (rs : List Rune) (offset column : Nat) :
    ((placeRunes offset column rs).foldr (addToTokens number) (false, [])).1 =
        (rs.foldr addToWords (false, [])).1 ∧
      ((placeRunes offset column rs).foldr (addToTokens number) (false, [])).2.map Token.word =
        (rs.foldr addToWords (false, [])).2 := by
  induction rs generalizing offset column with
  | nil => exact ⟨rfl, rfl⟩
  | cons r rs ih =>
    obtain ⟨hjoined, hwords⟩ := ih (offset + r.bytes.length) (column + 1)
    rw [placeRunes, List.foldr_cons, List.foldr_cons]
    rcases htok : (placeRunes (offset + r.bytes.length) (column + 1) rs).foldr (addToTokens number)
      (false, []) with ⟨joined, tokens⟩
    rcases hword : rs.foldr addToWords (false, []) with ⟨joined', words⟩
    rw [htok, hword] at hjoined hwords
    dsimp only at hjoined hwords
    subst hjoined hwords
    cases hsep : r.isSeparator with
    | true => simp [addToTokens, addToWords, hsep]
    | false => cases joined <;> cases tokens <;> simp [addToTokens, addToWords, hsep]

/-- The words of a line are the words of its text. -/
theorem words_tokensOf (number offset : Nat) (t : Text) :
    (tokensOf number offset t).map Token.word = words t :=
  (foldr_addToTokens number t.runes offset 1).2

theorem map_number_tokenizeFrom (number offset : Nat) (ps : List Text) :
    (tokenizeFrom number offset ps).map Line.number = List.range' number ps.length := by
  induction ps generalizing number offset with
  | nil => rfl
  | cons p ps ih => rw [tokenizeFrom, List.map_cons, ih, List.length_cons, List.range'_succ]

theorem map_words_tokenizeFrom (number offset : Nat) (ps : List Text) :
    (tokenizeFrom number offset ps).map Line.words = ps.map words := by
  induction ps generalizing number offset with
  | nil => rfl
  | cons p ps ih =>
    rw [tokenizeFrom, List.map_cons, ih, List.map_cons, Line.words, words_tokensOf]

theorem isWord_of_mem_tokenize {src : Text} {l : Line} (hl : l ∈ src.tokenize) {w : Text}
    (hw : w ∈ l.words) : IsWord w := by
  have hwords : l.words ∈ src.physicalLines.map words := by
    rw [← map_words_tokenizeFrom 1 0]
    exact List.mem_map_of_mem hl
  obtain ⟨piece, -, hpiece⟩ := List.mem_map.mp hwords
  rw [← hpiece] at hw
  exact isWord_of_mem_words hw

end Text

end TinyLang
