import TinyLang.Version
import TinyLang.Proofs.Text.Integer
import TinyLang.Proofs.Text.Words

/-!
# Versions read back

What the parts of a version are written as has no dot in it, and what stands before the stage has no
dash in it, so a version is taken apart where it was put together.

* `Version.Canonical`: what is true of every version that has been read (`Version.canonical_of_read`).
* `Version.read_text`: a canonical version is read back from its text, so canonical versions with the
  same text are the same (`Version.text_inj`).
* `version_text_is_canonical_form`: the headline. However a version was written, its text is read as the
  same version, and texts of versions that have been read differ if the versions do.
-/

namespace TinyLang

open Text (byte)

namespace Version

/-- The patch number is not negative, and a release has no stage number. -/
structure Canonical (v : Version) : Prop where
  patch : 0 ≤ v.patch
  release : v.stage = .release → v.stageNumber = 0

/-! ## Parts -/

theorem readPart_eq_ok {t : Text} {n : Int64} : readPart t = .ok n ↔ t.readInt64 false = .ok n := by
  unfold readPart readInt64
  cases t.readInt64 false with
  | ok k => simp
  | error e => cases e <;> simp

theorem readPart_partText (n : Int64) : readPart (partText n) = .ok n :=
  readPart_eq_ok.mpr (Text.readInt64_ofInt n)

theorem dot_notMem_partText (n : Int64) : byte '.' ∉ partText n := by
  intro h
  rcases Text.mem_ofInt h with h | ⟨h, -⟩ <;> exact absurd h (by decide)

theorem dash_notMem_partText {n : Int64} (hn : 0 ≤ n) : byte '-' ∉ partText n := by
  intro h
  rcases Text.mem_ofInt h with h | ⟨-, h⟩
  · exact absurd h (by decide)
  · rw [Int64.le_iff_toInt_le, Int64.toInt_zero] at hn
    omega

theorem partText_ne_nil (n : Int64) : partText n ≠ [] := by
  unfold partText Text.ofInt
  split
  · exact List.cons_ne_nil _ _
  · exact Text.ofNat_ne_nil _

/-! ## Stages -/

/-- The word for a stage before the release. -/
def stageWord : Stage → Text
  | .alpha => "alpha"
  | .beta => "beta"
  | .release => []

theorem stageWord_injective : Function.Injective stageWord := by
  intro a b
  cases a <;> cases b <;> first | exact fun _ => rfl | exact fun h => absurd h (by decide)

/-- What is read as a stage: its word, and behind a dot its number, which may be missing. -/
theorem readStage_eq_ok {t : Text} {stage : Stage} {n : Int64} :
    readStage t = .ok (stage, n) ↔
      stage ≠ .release ∧ ∃ number, (t.cut? (byte '.')).getD (t, []) = (stageWord stage, number) ∧
        (number = [] ∧ n = 0 ∨ number ≠ [] ∧ readPart number = .ok n) := by
  unfold readStage
  obtain ⟨kind, number⟩ := (t.cut? (byte '.')).getD (t, [])
  -- what is read once the word is known to be that of a stage
  have hknown : ∀ known : Stage, known ≠ .release → kind = stageWord known →
      ((if number.isEmpty then do let n ← .ok 0; pure (known, n)
        else do let n ← readPart number; pure (known, n)) = Except.ok (stage, n) ↔
      stage ≠ .release ∧ ∃ number', (kind, number) = (stageWord stage, number') ∧
        (number' = [] ∧ n = 0 ∨ number' ≠ [] ∧ readPart number' = .ok n)) := by
    rintro known hknown rfl
    have hstage : (stage ≠ .release ∧ ∃ number', (stageWord known, number) =
        (stageWord stage, number') ∧
          (number' = [] ∧ n = 0 ∨ number' ≠ [] ∧ readPart number' = .ok n)) ↔
        known = stage ∧ (number = [] ∧ n = 0 ∨ number ≠ [] ∧ readPart number = .ok n) := by
      simp only [Prod.mk.injEq, stageWord_injective.eq_iff]
      constructor
      · rintro ⟨-, _, ⟨rfl, rfl⟩, h⟩
        exact ⟨rfl, h⟩
      · rintro ⟨rfl, h⟩
        exact ⟨hknown, number, ⟨rfl, rfl⟩, h⟩
    rw [hstage]
    cases number with
    | nil => simp [bind, Except.bind, pure, Except.pure, eq_comm]
    | cons b r => cases readPart (b :: r) <;> simp [bind, Except.bind, pure, Except.pure]
  by_cases hbeta : kind = "beta"
  · rw [← hknown .beta nofun hbeta]
    simp only [if_pos hbeta]
    rfl
  by_cases halpha : kind = "alpha"
  · rw [← hknown .alpha nofun halpha]
    simp only [if_neg hbeta, if_pos halpha]
    rfl
  · simp only [if_neg hbeta, if_neg halpha]
    refine ⟨nofun, ?_⟩
    rintro ⟨hne, _, heq, -⟩
    cases stage with
    | alpha => exact absurd (congrArg Prod.fst heq) halpha
    | beta => exact absurd (congrArg Prod.fst heq) hbeta
    | release => exact absurd rfl hne

/-! ## Versions -/

/-- A text without the `v` in front of it. -/
def unmarked (t : Text) : Text := if t.startsWith "v" then t.drop 1 else t

/-- What stands behind the second dot of a version: the patch number, and behind a dash the stage. -/
inductive ReadsTail (v : Version) : Text → Prop
  | release {t : Text} (hdash : byte '-' ∉ t) (hpatch : readPart t = .ok v.patch)
      (hstage : v.stage = .release) (hnumber : v.stageNumber = 0) : ReadsTail v t
  | stage {t u : Text} (hdash : byte '-' ∉ t) (hpatch : readPart t = .ok v.patch)
      (hstage : readStage u = .ok (v.stage, v.stageNumber)) : ReadsTail v (t ++ byte '-' :: u)

/-- **What is read as a version**: three parts with dots between them, and a stage behind a dash. -/
theorem read_eq_ok {t : Text} {v : Version} :
    read t = .ok v ↔ ∃ first second third,
      unmarked t = first ++ byte '.' :: (second ++ byte '.' :: third) ∧ byte '.' ∉ first ∧
        byte '.' ∉ second ∧ readPart first = .ok v.major ∧ readPart second = .ok v.minor ∧
        ReadsTail v third := by
  constructor
  · intro h
    unfold read at h
    dsimp only at h
    split at h
    · cases h
    next first afterFirst hfirst =>
    split at h
    · cases h
    next second third hsecond =>
    obtain ⟨hdot, hbody⟩ := Text.cut?_eq_some hfirst
    obtain ⟨hdot', rfl⟩ := Text.cut?_eq_some hsecond
    obtain ⟨major, hmajor, hrest⟩ := bind_eq_ok.mp h
    obtain ⟨minor, hminor, htail⟩ := bind_eq_ok.mp hrest
    refine ⟨first, second, third, hbody, hdot, hdot', ?_⟩
    split at htail
    next hdash =>
      obtain ⟨patch, hpatch, ⟨⟩⟩ := bind_eq_ok.mp htail
      exact ⟨hmajor, hminor, .release (Text.cut?_eq_none.mp hdash) hpatch rfl rfl⟩
    next patchText stageText hcut =>
      obtain ⟨patch, hpatch, hlast⟩ := bind_eq_ok.mp htail
      obtain ⟨⟨stage, number⟩, hstage, ⟨⟩⟩ := bind_eq_ok.mp hlast
      obtain ⟨hdash, rfl⟩ := Text.cut?_eq_some hcut
      exact ⟨hmajor, hminor, .stage hdash hpatch hstage⟩
  · rintro ⟨first, second, third, hbody, hdot, hdot', hmajor, hminor, htail⟩
    unfold read
    dsimp only
    unfold unmarked at hbody
    rw [hbody, Text.cut?_append hdot]
    dsimp only
    rw [Text.cut?_append hdot']
    refine bind_eq_ok.mpr ⟨_, hmajor, bind_eq_ok.mpr ⟨_, hminor, ?_⟩⟩
    obtain ⟨major, minor, patch, stage, number⟩ := v
    cases htail with
    | release hdash hpatch hstage hnumber =>
      cases hstage
      cases hnumber
      rw [Text.cut?_eq_none.mpr hdash]
      exact bind_eq_ok.mpr ⟨_, hpatch, rfl⟩
    | stage hdash hpatch hstage =>
      rw [Text.cut?_append hdash]
      exact bind_eq_ok.mpr ⟨_, hpatch, bind_eq_ok.mpr ⟨_, hstage, rfl⟩⟩

/-- **A version that has been read is canonical.** -/
theorem canonical_of_read {t : Text} {v : Version} (h : read t = .ok v) : v.Canonical := by
  obtain ⟨_, _, third, -, -, -, -, -, htail⟩ := read_eq_ok.mp h
  cases htail with
  | release hdash hpatch hstage hnumber =>
    exact ⟨Text.readInt64_nonneg (readPart_eq_ok.mp hpatch) hdash, fun _ => hnumber⟩
  | stage hdash hpatch hstage =>
    exact ⟨Text.readInt64_nonneg (readPart_eq_ok.mp hpatch) hdash,
      fun hrelease => absurd hrelease (readStage_eq_ok.mp hstage).1⟩

/-- The text behind the second dot of a version. -/
def tailText (v : Version) : Text :=
  partText v.patch ++ if v.stage = .release then []
    else byte '-' :: (stageWord v.stage ++ byte '.' :: partText v.stageNumber)

theorem text_eq (v : Version) :
    v.text = partText v.major ++ byte '.' :: (partText v.minor ++ byte '.' :: v.tailText) := by
  obtain ⟨major, minor, patch, stage, number⟩ := v
  cases stage <;> simp [text, tailText, stageWord] <;> rfl

theorem readsTail_tailText {v : Version} (h : v.Canonical) : ReadsTail v v.tailText := by
  have hdash := dash_notMem_partText h.patch
  unfold tailText
  split
  next hstage =>
    rw [List.append_nil]
    exact .release hdash (readPart_partText _) hstage (h.release hstage)
  next hstage =>
    refine .stage hdash (readPart_partText _) (readStage_eq_ok.mpr ⟨hstage, partText v.stageNumber, ?_,
      .inr ⟨partText_ne_nil _, readPart_partText _⟩⟩)
    have hdot : byte '.' ∉ stageWord v.stage := by cases v.stage <;> decide
    rw [Text.cut?_append hdot]
    rfl

/-- A part begins with a digit or a dash. -/
theorem unmarked_text (v : Version) : unmarked v.text = v.text := by
  obtain ⟨b, r, heq⟩ := List.exists_cons_of_ne_nil (partText_ne_nil v.major)
  have hb : b ≠ byte 'v' := by
    rintro rfl
    have hmem : byte 'v' ∈ partText v.major := by
      rw [heq]
      exact List.mem_cons_self
    rcases Text.mem_ofInt hmem with h | ⟨h, -⟩ <;> exact absurd h (by decide)
  have hstart : v.text.startsWith "v" = false := by
    rw [text_eq, heq]
    show (byte 'v' == b && _) = false
    simp [Ne.symm hb]
  rw [unmarked, hstart]
  rfl

/-- **A version is read back** from its text. -/
theorem read_text {v : Version} (h : v.Canonical) : read v.text = .ok v :=
  read_eq_ok.mpr ⟨_, _, _, (unmarked_text v).trans v.text_eq, dot_notMem_partText _,
    dot_notMem_partText _, readPart_partText _, readPart_partText _, readsTail_tailText h⟩

theorem text_inj {v w : Version} (hv : v.Canonical) (hw : w.Canonical) : v.text = w.text ↔ v = w := by
  refine ⟨fun h => ?_, congrArg text⟩
  have hread := read_text hv
  rw [h, read_text hw] at hread
  exact (Except.ok.inj hread).symm

end Version

/-- **The text of a version is its canonical form.** Whatever text a version was read from, its own text
is read as exactly that version, and two texts are read as the same version if and only if the texts of
the versions read from them are equal. -/
theorem version_text_is_canonical_form {t : Text} {v : Version} (h : Version.read t = .ok v) :
    Version.read v.text = .ok v ∧
      ∀ t' v', Version.read t' = .ok v' →
        (Version.read t = Version.read t' ↔ v.text = v'.text) := by
  have hv := Version.canonical_of_read h
  refine ⟨Version.read_text hv, fun t' v' h' => ?_⟩
  rw [h, h', Except.ok.injEq, Version.text_inj hv (Version.canonical_of_read h')]

/-- Three texts of one version, the second of them its own. A mark, plus signs, zeros in front and a dot
with no number behind it all go. The same numbers with another stage are another version. -/
theorem version_text_is_canonical_form_untidy :
    ∃ v, Version.read "v+01.-9223372036854775808.007-beta." = .ok v ∧
      v.text = ("1.-9223372036854775808.7-beta.0" : Text) ∧
      Version.read "1.-9223372036854775808.7-beta.0" = .ok v ∧
      Version.read "1.-9223372036854775808.+7-beta.-0" = .ok v ∧
      Version.read "1.-9223372036854775808.7-alpha.0" ≠ .ok v := by
  let v : Version := ⟨1, -9223372036854775808, 7, .beta, 0⟩
  have hread : Version.read "v+01.-9223372036854775808.007-beta." = .ok v := by decide +kernel
  have htext : v.text = ("1.-9223372036854775808.7-beta.0" : Text) := by decide +kernel
  obtain ⟨hback, hsame⟩ := version_text_is_canonical_form hread
  have hsigns := hsame "1.-9223372036854775808.+7-beta.-0" v (by decide +kernel)
  have halpha := hsame "1.-9223372036854775808.7-alpha.0" ⟨1, -9223372036854775808, 7, .alpha, 0⟩
    (by decide +kernel)
  rw [htext] at hback
  refine ⟨v, hread, htext, hback, (hsigns.2 rfl).symm.trans hread, fun heq => ?_⟩
  exact absurd (halpha.1 (hread.trans heq.symm)) (by decide +kernel)

end TinyLang
