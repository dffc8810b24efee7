import TinyLang.Machine.Run
import TinyLang.Proofs.Program.Loaded
import TinyLang.Proofs.Text.Lines

/-!
# Writing a program and loading it again

The text of a loaded program is tidy line by line, and its words spell what was loaded.

* `Expr.ofWords_render`: the text of an expression is the words it came from, with spaces between.
* `exists_spelling`: the text of an action is made of words that spell the action again, though they
  need not be the words that it came from (the word before the label of a branch, what stands around
  the quotes of a print item).
* `Slot.ofWords_text`: the same for a line with its label.
* `load_source`: the headline. The source of a loaded program loads as the same program, so that
  writing it again gives the same source and running it makes no difference.
-/

namespace TinyLang

/-! ## Expressions -/

theorem Operator.ofWord?_render {w : Text} {op : Operator} (h : Operator.ofWord? w = some op) :
    op.render = .ok w := by
  obtain ⟨⟨op', s⟩, hfind, rfl⟩ := Option.map_eq_some_iff.mp h
  have hs : Text.ofString s = w := by simpa using List.find?_some hfind
  have hspell : ∀ e ∈ Operator.spellings, e.1.render = .ok (Text.ofString e.2) := by
    simp only [Operator.spellings, List.forall_mem_cons]
    exact ⟨rfl, rfl, rfl, rfl, rfl, rfl, rfl, rfl, rfl, rfl, List.forall_mem_nil _⟩
  rw [← hs]
  exact hspell _ (List.mem_of_find?_eq_some hfind)

theorem Expr.ofTerm_render {w : Text} {e : Expr} (h : Expr.ofTerm w = .ok e) :
    e.render = .ok w := by
  unfold Expr.ofTerm at h
  split at h
  · cases h
    rfl
  split at h
  · cases h
    rfl
  split at h
  · cases h
    rfl
  · cases h

/-- **The text of an expression** is the words it came from. -/
theorem Expr.ofWords_render {ws : List Text} {e : Expr} (h : Expr.ofWords ws = .ok e) :
    ws ≠ [] ∧ e.render = .ok (Text.join " " ws) := by
  unfold Expr.ofWords at h
  split at h
  · cases h
  · exact ⟨List.cons_ne_nil _ _, Expr.ofTerm_render h⟩
  next left op right =>
    split at h
    · cases h
    next o ho =>
      obtain ⟨l, hl, h⟩ := bind_eq_ok.mp h
      obtain ⟨r, hr, h⟩ := bind_eq_ok.mp h
      cases h
      refine ⟨List.cons_ne_nil _ _, ?_⟩
      rw [Expr.render, Expr.ofTerm_render hl, Operator.ofWord?_render ho, Expr.ofTerm_render hr]
      show Except.ok _ = Except.ok _
      simp [Text.join]
  · cases h

/-! ## Print items -/

theorem isPlain_comma : IsPlain (Text.byte ',') := ⟨by decide, by decide⟩

theorem isPlain_quote : IsPlain (Text.byte '"') := ⟨by decide, by decide⟩

theorem betweenQuotes?_eq_some {t text : Text} (h : betweenQuotes? t = some text) :
    Text.byte '"' ∉ text ∧
      ∃ a b, t = a ++ Text.byte '"' :: (text ++ Text.byte '"' :: b) := by
  unfold betweenQuotes? at h
  obtain ⟨⟨a, rest⟩, hopen, h⟩ := Option.bind_eq_some_iff.mp h
  obtain ⟨⟨text', b⟩, hclose, h⟩ := Option.bind_eq_some_iff.mp h
  cases h
  obtain ⟨-, rfl⟩ := Text.cut?_eq_some hopen
  obtain ⟨hq, rfl⟩ := Text.cut?_eq_some hclose
  exact ⟨hq, a, b, rfl⟩

theorem betweenQuotes?_quoted {text : Text} (h : Text.byte '"' ∉ text) {a : Text}
    (ha : Text.byte '"' ∉ a) (b : Text) :
    betweenQuotes? (a ++ Text.byte '"' :: (text ++ Text.byte '"' :: b)) = some text := by
  unfold betweenQuotes?
  rw [Text.cut?_append ha]
  show ((text ++ Text.byte '"' :: b).cut? (Text.byte '"') >>= _) = _
  rw [Text.cut?_append h]
  rfl

/-- The text stands for an item of a print list: at the start of the list, or behind a comma and a
space. -/
structure PrintItem.Spells (t : Text) (item : PrintItem) : Prop where
  render : item.render = .ok t
  tidy : Tidy t
  ne_nil : t ≠ []
  no_comma : Text.byte ',' ∉ t
  read : PrintItem.ofPiece t = .ok item
  read_space : PrintItem.ofPiece (spaceByte :: t) = .ok item

theorem PrintItem.ofPiece_quoted {text a : Text} (h : Text.byte '"' ∉ text)
    (ha : Text.byte '"' ∉ a) :
    PrintItem.ofPiece (a ++ Text.byte '"' :: (text ++ [Text.byte '"'])) = .ok (.literal text) := by
  unfold PrintItem.ofPiece
  rw [if_pos (by simp), betweenQuotes?_quoted h ha []]

theorem PrintItem.spells_literal {a text b : Text}
    (htidy : Tidy (a ++ Text.byte '"' :: (text ++ Text.byte '"' :: b)))
    (hquote : Text.byte '"' ∉ text) (hcomma : Text.byte ',' ∉ text) :
    PrintItem.Spells (Text.byte '"' :: (text ++ [Text.byte '"'])) (.literal text) where
  render := rfl
  tidy := htidy.cut isPlain_quote isPlain_quote
  ne_nil := List.cons_ne_nil _ _
  no_comma := by
    have hne : Text.byte ',' ≠ Text.byte '"' := by decide
    simp [hcomma, hne]
  read := PrintItem.ofPiece_quoted hquote List.not_mem_nil
  read_space := PrintItem.ofPiece_quoted (a := [spaceByte]) hquote (by decide)

theorem PrintItem.ofPiece_words {t : Text} {e : Expr} (hquote : Text.byte '"' ∉ t)
    (h : Expr.ofWords t.words = .ok e) : PrintItem.ofPiece t = .ok (.value e) := by
  unfold PrintItem.ofPiece
  rw [if_neg (by simpa using hquote), h]
  rfl

theorem PrintItem.spells_value {piece : Text} {e : Expr} (hquote : Text.byte '"' ∉ piece)
    (hcomma : Text.byte ',' ∉ piece) (h : Expr.ofWords piece.words = .ok e) :
    PrintItem.Spells (Text.join " " piece.words) (.value e) := by
  have hword : ∀ w ∈ piece.words, IsWord w := fun w hw => Text.isWord_of_mem_words hw
  have hmem : ∀ b, b ∉ piece → b ≠ spaceByte → b ∉ Text.join " " piece.words := by
    intro b hb hspace hmem
    rcases Text.mem_join hmem with rfl | ⟨w, hw, hbw⟩
    · exact hspace rfl
    · exact hb (Text.mem_of_mem_words hw hbw)
  have hquote' := hmem _ hquote (by decide)
  obtain ⟨hne, hrender⟩ := Expr.ofWords_render h
  exact
    { render := hrender
      tidy := ⟨piece.words, hword, rfl⟩
      ne_nil := Text.join_ne_nil hword hne
      no_comma := hmem _ hcomma (by decide)
      read := PrintItem.ofPiece_words hquote' (by rw [Text.words_join hword, h])
      read_space := PrintItem.ofPiece_words
        (by rw [List.mem_cons, not_or]; exact ⟨by decide, hquote'⟩)
        (by rw [Text.words_space, Text.words_join hword, h]) }

/-- The item that a piece of a tidy text is can be spelled again. -/
theorem PrintItem.exists_spelling {piece a b : Text} {item : PrintItem}
    (htidy : Tidy (a ++ (piece ++ b))) (hcomma : Text.byte ',' ∉ piece)
    (h : PrintItem.ofPiece piece = .ok item) : ∃ t, PrintItem.Spells t item := by
  unfold PrintItem.ofPiece at h
  split at h
  · split at h
    next text hbetween =>
      cases h
      obtain ⟨hquote, c, d, rfl⟩ := betweenQuotes?_eq_some hbetween
      refine ⟨_, PrintItem.spells_literal (a := a ++ c) (b := d ++ b) ?_ hquote ?_⟩
      · simpa using htidy
      · intro hmem
        exact hcomma (by simp [hmem])
    · cases h
  next hquote =>
    obtain ⟨e, he, h⟩ := bind_eq_ok.mp h
    cases h
    exact ⟨_, PrintItem.spells_value (by simpa using hquote) hcomma he⟩

/-! ## Print lists -/

/-- Behind a comma and a space, the rest of a list is read like the list itself. -/
theorem PrintItem.mapM_pieces {ts : List Text} {items : List PrintItem}
    (h : List.Forall₂ PrintItem.Spells ts items) (hne : ts ≠ []) :
    ((Text.pieces (Text.byte ',') (Text.join ", " ts)).mapM PrintItem.ofPiece = .ok items ∧
      (Text.pieces (Text.byte ',') (spaceByte :: Text.join ", " ts)).mapM PrintItem.ofPiece =
        .ok items) ∧
      Tidy (Text.join ", " ts) ∧ Text.join ", " ts ≠ [] := by
  induction h with
  | nil => exact absurd rfl hne
  | @cons t item ts items ht hts ih =>
    have hspace : Text.byte ',' ∉ spaceByte :: t := by
      rw [List.mem_cons, not_or]
      exact ⟨by decide, ht.no_comma⟩
    by_cases hnil : ts = []
    · subst hnil
      cases hts
      refine ⟨⟨?_, ?_⟩, ht.tidy, ht.ne_nil⟩
      · rw [Text.join_singleton, Text.pieces_of_not_mem ht.no_comma, mapM_eq_ok]
        exact .cons ht.read .nil
      · rw [Text.join_singleton, Text.pieces_of_not_mem hspace, mapM_eq_ok]
        exact .cons ht.read_space .nil
    · obtain ⟨⟨-, hrest⟩, htidy, hrestne⟩ := ih hnil
      have hjoin : Text.join ", " (t :: ts) =
          t ++ Text.byte ',' :: (spaceByte :: Text.join ", " ts) := by
        rw [Text.join_cons _ _ hnil, List.append_assoc]
        rfl
      refine ⟨⟨?_, ?_⟩, ?_, ?_⟩
      · rw [hjoin, Text.pieces_append ht.no_comma, mapM_eq_ok]
        exact .cons ht.read (mapM_eq_ok.mp hrest)
      · rw [hjoin, ← List.cons_append, Text.pieces_append hspace, mapM_eq_ok]
        exact .cons ht.read_space (mapM_eq_ok.mp hrest)
      · have hcomma : Tidy (t ++ [Text.byte ',']) := ht.tidy.snoc isPlain_comma ht.ne_nil
        have := hcomma.append_space htidy (by simp) hrestne
        rw [hjoin]
        simpa using this
      · rw [hjoin]
        simp

/-! ## Actions -/

/-- The words spell an action: they are its text, and give it again. They start with no label. -/
structure Action.Spells (ws : List Text) (a : Action) : Prop where
  isWord : ∀ w ∈ ws, IsWord w
  render : a.render = .ok (Text.join " " ws)
  read : Action.ofWords ws = .ok a
  unlabelled : ∀ w, ws.head? = some w → w.endsWith ":" = false

theorem Action.spells_assign {target : Text} {ws : List Text} {e : Expr} (htarget : IsWord target)
    (hws : ∀ w ∈ ws, IsWord w) (h : Expr.ofWords ws = .ok e) :
    Action.Spells ("let" :: target :: "=" :: ws) (.assign target e) := by
  obtain ⟨hne, hrender⟩ := Expr.ofWords_render h
  obtain ⟨term, rest, rfl⟩ := List.exists_cons_of_ne_nil hne
  have hlet : IsWord "let" := by decide
  have heq : IsWord "=" := by decide
  have htext : Text.join " " ("let" :: target :: "=" :: term :: rest) =
      "let " ++ target ++ " = " ++ Text.join " " (term :: rest) := by
    have hletText : ("let " : Text) = ("let" : Text) ++ (" " : Text) := by decide
    have heqText : (" = " : Text) = (" " : Text) ++ (("=" : Text) ++ (" " : Text)) := by decide
    rw [Text.join_cons _ ("let" : Text) (List.cons_ne_nil _ _),
      Text.join_cons _ target (List.cons_ne_nil _ _), Text.join_cons _ ("=" : Text) hne, hletText,
      heqText]
    simp only [List.append_assoc]
  exact
    { isWord := by simpa [hlet, heq, htarget] using hws
      render := by
        rw [Action.render, hrender, htext]
        rfl
      read := by
        rw [Action.ofWords, if_pos rfl, Action.assignOfWords, if_pos rfl, h]
        rfl
      unlabelled := by
        rintro _ ⟨⟩
        decide }

theorem Action.spells_branch {label : Text} {ws : List Text} {e : Expr} (hlabel : IsWord label)
    (hws : ∀ w ∈ ws, IsWord w) (h : Expr.ofWords ws = .ok e) :
    Action.Spells ("if" :: (ws ++ [("goto" : Text), label])) (.branch e label) := by
  obtain ⟨hne, hrender⟩ := Expr.ofWords_render h
  have hif : IsWord "if" := by decide
  have hgoto : IsWord "goto" := by decide
  have htext : Text.join " " ("if" :: (ws ++ [("goto" : Text), label])) =
      "if " ++ Text.join " " ws ++ " goto " ++ label := by
    have hifText : ("if " : Text) = ("if" : Text) ++ (" " : Text) := by decide
    have hgotoText : (" goto " : Text) = (" " : Text) ++ (("goto" : Text) ++ (" " : Text)) := by
      decide
    rw [Text.join_cons _ ("if" : Text) (by simp), Text.join_append _ hne (List.cons_ne_nil _ _),
      Text.join_cons _ ("goto" : Text) (List.cons_ne_nil _ _), Text.join_singleton, hifText,
      hgotoText]
    simp only [List.append_assoc]
  exact
    { isWord := by
        intro w hw
        simp only [List.mem_cons, List.mem_append, List.not_mem_nil, or_false] at hw
        rcases hw with rfl | hw | rfl | rfl
        · exact hif
        · exact hws w hw
        · exact hgoto
        · exact hlabel
      render := by
        rw [Action.render, hrender, htext]
        rfl
      read := by
        obtain ⟨last, init, hrev⟩ := List.exists_cons_of_ne_nil (List.reverse_ne_nil_iff.mpr hne)
        have hwords : (ws ++ [("goto" : Text), label]).reverse =
            label :: "goto" :: last :: init := by
          rw [List.reverse_append, hrev]
          rfl
        have hback : (last :: init).reverse = ws := by rw [← hrev, List.reverse_reverse]
        rw [Action.ofWords, if_neg (by decide), if_pos rfl, Action.branchOfWords, hwords]
        simp only [hback, h]
        rfl
      unlabelled := by
        rintro _ ⟨⟩
        decide }

theorem Action.spells_input {target : Text} (htarget : IsWord target) :
    Action.Spells ["input", target] (.input target) where
  isWord := by
    have hinput : IsWord "input" := by decide
    simp [hinput, htarget]
  render := by
    have hinput : ("input " : Text) = ("input" : Text) ++ (" " : Text) := by decide
    rw [Action.render, Text.join_cons _ _ (by simp), Text.join_singleton, hinput]
  read := by
    rw [Action.ofWords, if_neg (by decide), if_neg (by decide), if_neg (by decide), if_pos rfl]
    rfl
  unlabelled := by
    rintro _ ⟨⟩
    decide

/-- A print list is read again from the words of its own text. -/
theorem Action.exists_spells_print {ws : List Text} {items : List PrintItem}
    (hws : ∀ w ∈ ws, IsWord w)
    (h : (Text.pieces (Text.byte ',') (Text.join " " ws)).mapM PrintItem.ofPiece = .ok items) :
    ∃ ws', Action.Spells ws' (.print items) := by
  have htidy : Tidy (Text.join " " ws) := ⟨ws, hws, rfl⟩
  have hpiece : ∀ item ∈ items, ∃ t, PrintItem.Spells t item := by
    intro item hitem
    obtain ⟨piece, hmem, hread⟩ := exists_of_mem_mapM h hitem
    obtain ⟨hcomma, a, b, hab⟩ := Text.mem_pieces hmem
    rw [hab] at htidy
    exact PrintItem.exists_spelling htidy hcomma hread
  obtain ⟨ts, hts⟩ := exists_forall₂ hpiece
  have hitems : items ≠ [] := by
    rintro rfl
    exact Text.pieces_ne_nil _ _ (List.forall₂_nil_right_iff.mp (mapM_eq_ok.mp h))
  have hne : ts ≠ [] := by
    rintro rfl
    exact hitems (List.forall₂_nil_left_iff.mp hts)
  obtain ⟨⟨hread, -⟩, ⟨ws', hws', hjoin⟩, htextne⟩ := PrintItem.mapM_pieces hts hne
  have hws'ne : ws' ≠ [] := by
    rintro rfl
    exact htextne hjoin
  have hprint : IsWord "print" := by decide
  have hrender : items.mapM PrintItem.render = .ok ts :=
    mapM_eq_ok.mpr (hts.flip.imp fun _ _ hspell => hspell.render)
  refine ⟨"print" :: ws', ⟨?_, ?_, ?_, ?_⟩⟩
  · simpa [hprint] using hws'
  · have htext : Text.join " " ("print" :: ws') = "print " ++ Text.join ", " ts := by
      have hprintText : ("print " : Text) = ("print" : Text) ++ (" " : Text) := by decide
      rw [Text.join_cons _ ("print" : Text) hws'ne, hprintText, hjoin]
    rw [Action.render, hrender, htext]
    rfl
  · rw [Action.ofWords, if_neg (by decide), if_neg (by decide), if_pos rfl, Action.printOfWords,
      ← hjoin, hread]
    rfl
  · rintro _ ⟨⟩
    decide

/-- **Every action of words has a spelling**, its text. -/
theorem Action.exists_spells {ws : List Text} {a : Action} (hws : ∀ w ∈ ws, IsWord w)
    (h : Action.ofWords ws = .ok a) : ∃ ws', Action.Spells ws' a := by
  obtain ⟨target, es, e, rfl, he, rfl⟩ | ⟨es, word, label, e, rfl, he, rfl⟩ |
    ⟨words, items, rfl, hitems, rfl⟩ | ⟨target, rfl, rfl⟩ := Action.ofWords_cases h
  · exact ⟨_, Action.spells_assign (hws target (by simp)) (fun w hw => hws w (by simp [hw])) he⟩
  · exact ⟨_, Action.spells_branch (hws label (by simp)) (fun w hw => hws w (by simp [hw])) he⟩
  · exact Action.exists_spells_print (fun w hw => hws w (List.mem_cons_of_mem _ hw)) hitems
  · exact ⟨_, Action.spells_input (hws target (by simp))⟩

/-! ## Lines -/

theorem Stmt.text_of_spells {ws : List Text} {s : Stmt} (h : Action.Spells ws s.action) :
    s.text = Text.join " " ws := by
  rw [Stmt.text, Stmt.render, h.render]

theorem Text.dropLast_append_colon {w : Text} (h : w.endsWith ":" = true) :
    w.dropLast ++ (":" : Text) = w := by
  obtain ⟨label, rfl⟩ := List.isSuffixOf_iff_suffix.mp h
  have hcolon : (":" : Text) = [Text.byte ':'] := by decide
  rw [hcolon, List.dropLast_concat]

/-- A statement of words has a text that gives it again. -/
theorem Stmt.exists_spells {ws : List Text} {line : Int} {s : Stmt} (hws : ∀ w ∈ ws, IsWord w)
    (h : Stmt.ofWords ws line = .ok s) :
    ∃ first rest, s.text = Text.join " " (first :: rest) ∧ (∀ w ∈ first :: rest, IsWord w) ∧
      first.endsWith ":" = false ∧ Stmt.ofWords (first :: rest) line = .ok s := by
  obtain ⟨hline, haction⟩ := Stmt.ofWords_eq_ok.mp h
  obtain ⟨ws', hspells⟩ := Action.exists_spells hws haction
  cases ws' with
  | nil => exact absurd hspells.read nofun
  | cons first rest =>
    exact ⟨first, rest, Stmt.text_of_spells hspells, hspells.isWord, hspells.unlabelled first rfl,
      Stmt.ofWords_eq_ok.mpr ⟨hline, hspells.read⟩⟩

/-- **The text of a line gives the line again**, and has no newline in it. -/
theorem Slot.ofWords_text {ws : List Text} {line : Int} {slot : Slot} (hws : ∀ w ∈ ws, IsWord w)
    (h : Slot.ofWords ws line = .ok slot) :
    Slot.ofWords slot.text.words line = .ok slot ∧ Text.byte '\n' ∉ slot.text := by
  suffices hspell : ∃ ws', (∀ w ∈ ws', IsWord w) ∧ slot.text = Text.join " " ws' ∧
      Slot.ofWords ws' line = .ok slot by
    obtain ⟨ws', hws', htext, hread⟩ := hspell
    rw [htext, Text.words_join hws']
    exact ⟨hread, Tidy.no_newline ⟨ws', hws', rfl⟩⟩
  cases ws with
  | nil =>
    cases h
    exact ⟨[], nofun, rfl, rfl⟩
  | cons first rest =>
    have hfirst : IsWord first := hws first List.mem_cons_self
    have hrest : ∀ w ∈ rest, IsWord w := fun w hw => hws w (List.mem_cons_of_mem _ hw)
    obtain ⟨hcolon, hlabel, -, s, hs, rfl⟩ | ⟨-, s, hs, rfl⟩ := Slot.ofWords_cons.mp h
    · obtain ⟨w, more, htext, hwords, -, hread⟩ := Stmt.exists_spells hrest hs
      refine ⟨first :: w :: more, List.forall_mem_cons.mpr ⟨hfirst, hwords⟩, ?_,
        Slot.ofWords_cons.mpr (.inl ⟨hcolon, hlabel, List.cons_ne_nil _ _, s, hread, rfl⟩)⟩
      have hsep : (": " : Text) = (":" : Text) ++ (" " : Text) := by decide
      rw [Text.join_cons _ first (List.cons_ne_nil _ _), ← htext]
      show first.dropLast ++ (": " : Text) ++ s.text = _
      rw [hsep, ← List.append_assoc, Text.dropLast_append_colon hcolon]
    · obtain ⟨w, more, htext, hwords, hw, hread⟩ := Stmt.exists_spells hws hs
      exact ⟨w :: more, hwords, htext, Slot.ofWords_cons.mpr (.inr ⟨hw, s, hread, rfl⟩)⟩

/-! ## Programs -/

/-- **The statement on a line of a loaded program comes from words** of that line. -/
theorem Program.load_words {name src : Text} {p : Program} (h : Program.load name src = .ok p)
    {line : Int} {s : Stmt} (hs : p.stmt? line = some s) :
    ∃ ws, (∀ w ∈ ws, IsWord w) ∧ Stmt.ofWords ws line = .ok s := by
  obtain ⟨hline, slot, hslot, hstmt⟩ := Program.stmt?_eq_some.mp hs
  obtain ⟨l, hl, -, hread⟩ := Program.load_slot h hslot
  obtain ⟨ws, hsub, hws⟩ := Slot.ofWords_stmt hread hstmt
  refine ⟨ws, fun w hw => Text.isWord_of_mem_tokenize hl (hsub hw), ?_⟩
  have hnumber : ((line.toNat - 1 + 1 : Nat) : Int) = line := by omega
  rwa [hnumber] at hws

/-- The lines of a text that gives slots, and the lines of the texts of these slots: they give the
same slots, wherever the lines stand. -/
theorem Slot.forall₂_text {pieces : List Text} {slots : List Slot} {number offset : Nat}
    (h : List.Forall₂ (fun (l : Line) slot => Slot.ofWords l.words l.number = .ok slot)
      (Text.tokenizeFrom number offset pieces) slots) (offset' : Nat) :
    List.Forall₂ (fun (l : Line) slot => Slot.ofWords l.words l.number = .ok slot)
        (Text.tokenizeFrom number offset' (slots.map Slot.text)) slots ∧
      ∀ slot ∈ slots, Text.byte '\n' ∉ slot.text := by
  induction pieces generalizing slots number offset offset' with
  | nil =>
    cases h
    exact ⟨.nil, nofun⟩
  | cons piece pieces ih =>
    rw [Text.tokenizeFrom] at h
    obtain ⟨slot, slots', hslot, hrest, rfl⟩ := List.forall₂_cons_left_iff.mp h
    obtain ⟨htexts, hlines⟩ := ih hrest (offset' + slot.text.length + 1)
    have hwords : ∀ w ∈ (tokensOf number offset piece).map Token.word, IsWord w := by
      rw [Text.words_tokensOf]
      exact fun w hw => Text.isWord_of_mem_words hw
    obtain ⟨hread, hline⟩ := Slot.ofWords_text hwords hslot
    refine ⟨.cons ?_ htexts, List.forall_mem_cons.mpr ⟨hline, hlines⟩⟩
    rw [Line.words, Text.words_tokensOf]
    exact hread

theorem Program.firstOfLast_rename (p : Program) (name : Text) (left : Nat) :
    ({ p with name := name } : Program).firstOfLast left = p.firstOfLast left := by
  induction left with
  | zero => rfl
  | succ left ih =>
    unfold Program.firstOfLast
    rw [ih]
    rfl

theorem Machine.arrive_rename (conf : Settings) (p : Program) (name : Text) (line : Int)
    (m : Machine) : m.arrive conf { p with name := name } line = m.arrive conf p line := by
  unfold Machine.arrive Program.next?
  rw [Program.firstOfLast_rename]
  rfl

/-- The name of a program makes no difference to its runs. -/
theorem Machine.run_rename (conf : Settings) (p : Program) (name : Text) (fuel : Nat) (line : Int)
    (m : Machine) :
    Machine.run conf { p with name := name } fuel line m = Machine.run conf p fuel line m := by
  induction fuel generalizing line m with
  | zero =>
    unfold Machine.run
    rw [Machine.arrive_rename]
  | succ fuel ih =>
    unfold Machine.run
    simp only [Machine.arrive_rename, ih]

/-- **Formatting is lossless and idempotent.** The source of a loaded program loads, as the same
program but for its name: the same slots, hence the same labels and the same source. A run of
either, with any settings, on any input and with any room for its output, is a run of the other. -/
theorem load_source {name src : Text} {p : Program} (h : Program.load name src = .ok p)
    (name' : Text) :
    ∃ q, Program.load name' p.source = .ok q ∧ q = { p with name := name' } ∧
      q.size = p.size ∧ (∀ line, q.stmt? line = p.stmt? line ∧ q.label? line = p.label? line) ∧
      q.labels = p.labels ∧ q.redefined = p.redefined ∧ q.source = p.source ∧
      ∀ (conf : Settings) (fuel : Nat) (stdin : Text) (room : Option Nat),
        Machine.run conf q fuel 1 (Machine.start q stdin room) =
          Machine.run conf p fuel 1 (Machine.start p stdin room) := by
  obtain ⟨-, hall⟩ := Program.load_eq_ok.mp h
  obtain ⟨htexts, hlines⟩ := Slot.forall₂_text hall 0
  refine ⟨{ p with name := name' }, Program.load_eq_ok.mpr ⟨rfl, ?_⟩, rfl, rfl,
    fun _ => ⟨rfl, rfl⟩, rfl, rfl, rfl, fun conf fuel stdin room => ?_⟩
  · have hsource : p.source =
        (p.slots.toList.map Slot.text).flatMap fun t => t ++ ("\n" : Text) := by
      rw [List.flatMap_map]
      rfl
    have hphysical : p.source.physicalLines = p.slots.toList.map Slot.text := by
      rw [hsource, Text.physicalLines_flatMap (by simpa using hlines)]
    rw [Text.tokenize, hphysical]
    exact htexts
  · exact Machine.run_rename conf p name' fuel 1 _

/-- A label that ends in a colon, a quoted text with something behind it, a blank line, a branch
with another word than `goto`, and a label that is no UTF-8. -/
theorem load_source_untidy :
    ∃ src p q,
      src = ("end:: print  x\t< 2 ,\" a   b\"junk\n\nif  x before end:\n" : Text) ++ [0xE2, 0x80] ++
        (": input y" : Text) ∧
      Program.load "a" src = .ok p ∧
      p.source = ("end:: print x < 2, \" a b\"\n\nif x goto end:\n" : Text) ++ [0xE2, 0x80] ++
        (": input y\n" : Text) ∧
      Program.load "b" p.source = .ok q ∧ q = { p with name := "b" } ∧ q.source = p.source := by
  have hload : Program.load "a"
      (("end:: print  x\t< 2 ,\" a   b\"junk\n\nif  x before end:\n" : Text) ++ [0xE2, 0x80] ++
        (": input y" : Text)) =
      .ok ⟨"a", #[⟨some "end:", some ⟨1, .print [.value (.binary .less (.var "x") (.number "2")),
          .literal " a b"]⟩⟩, .blank, ⟨none, some ⟨3, .branch (.var "x") "end:"⟩⟩,
        ⟨some [0xE2, 0x80], some ⟨4, .input "y"⟩⟩]⟩ := rfl
  obtain ⟨q, hq, hname, -, -, -, -, hsource, -⟩ := load_source hload "b"
  exact ⟨_, _, q, rfl, hload, rfl, hq, hname, hsource⟩

end TinyLang
