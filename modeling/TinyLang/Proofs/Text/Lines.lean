import TinyLang.Proofs.Text.Trim
import TinyLang.Proofs.Text.Words

/-!
# Lines of a text

A line ends at a newline, and a last line without one counts if it is not empty. `physicalLines`
lists the lines of a whole text, and `takeLine?` splits off the first. The two agree
(`takeLine?_eq`), so reading a text line by line gives its physical lines one after the other; the
newline that `takeLine?` keeps is white space, which trimming removes (`trim_newline`). How many
lines there are is a matter of newlines (`countLines_eq`).
-/

namespace TinyLang

namespace Text

/-! ## Physical lines -/

theorem physicalLines_nil : physicalLines [] = [] := rfl

/-- The first line ends at the first newline. -/
theorem physicalLines_line {line : Text} (h : byte '\n' ∉ line) (rest : Text) :
    physicalLines (line ++ byte '\n' :: rest) = line :: physicalLines rest := by
  unfold physicalLines
  rw [pieces_append h]
  have hne := pieces_ne_nil (byte '\n') rest
  by_cases hlast : (pieces (byte '\n') rest).getLast? = some []
  · simp [List.getLast?_cons, hlast, List.dropLast_cons_of_ne_nil hne]
  · obtain ⟨x, hx⟩ := Option.ne_none_iff_exists'.mp (mt List.getLast?_eq_none_iff.mp hne)
    rw [hx] at hlast
    simp [List.getLast?_cons, hx, hlast]

/-- A text without a newline is one line, unless it is empty. -/
theorem physicalLines_single {t : Text} (h : byte '\n' ∉ t) (hne : t ≠ []) :
    physicalLines t = [t] := by
  unfold physicalLines
  rw [pieces_of_not_mem h]
  simp [hne]

/-- The physical lines of lines that end with a newline each and of what follows them. -/
theorem physicalLines_append {ts : List Text} (h : ∀ t ∈ ts, byte '\n' ∉ t) (rest : Text) :
    physicalLines ((ts.flatMap fun t => t ++ ("\n" : Text)) ++ rest) =
      ts ++ physicalLines rest := by
  induction ts with
  | nil => rfl
  | cons t ts ih =>
    rw [List.forall_mem_cons] at h
    have hcons : ((t :: ts).flatMap fun t => t ++ ("\n" : Text)) ++ rest =
        t ++ byte '\n' :: ((ts.flatMap fun t => t ++ ("\n" : Text)) ++ rest) := by
      rw [List.flatMap_cons, List.append_assoc, List.append_assoc]
      rfl
    rw [hcons, physicalLines_line h.1, ih h.2, List.cons_append]

/-- Lines that end with a newline each are the physical lines of the text. -/
theorem physicalLines_flatMap {ts : List Text} (h : ∀ t ∈ ts, byte '\n' ∉ t) :
    physicalLines (ts.flatMap fun t => t ++ ("\n" : Text)) = ts := by
  have hphysical := physicalLines_append h []
  rwa [List.append_nil, physicalLines_nil, List.append_nil] at hphysical

theorem physicalLines_prefix (src : Text) : src.physicalLines <+: src.pieces (byte '\n') := by
  unfold physicalLines
  dsimp only
  split
  · exact List.dropLast_prefix _
  · exact List.prefix_rfl

theorem physicalLines_eq_take (src : Text) :
    src.physicalLines = (src.pieces (byte '\n')).take src.countLines :=
  List.prefix_iff_eq_take.mp src.physicalLines_prefix

theorem no_newline_of_mem_physicalLines {src piece : Text} (h : piece ∈ src.physicalLines) :
    byte '\n' ∉ piece :=
  (mem_pieces (src.physicalLines_prefix.subset h)).1

theorem endsWith_newline {t : Text} : t.endsWith "\n" = true ↔ t.getLast? = some (byte '\n') :=
  List.isSuffixOf_iff_suffix.trans List.singleton_suffix_iff_getLast?_eq_some

/-- **The number of lines** is that of the newlines, and one more if something stands behind the
last of them. -/
theorem countLines_eq (src : Text) :
    src.countLines =
      if src = [] then 0 else src.count (byte '\n') + if src.endsWith "\n" then 0 else 1 := by
  by_cases hnewline : byte '\n' ∈ src
  · obtain ⟨line, rest, rfl, hline⟩ := List.eq_append_cons_of_mem hnewline
    have hlt : rest.length < (line ++ byte '\n' :: rest).length := by
      rw [List.length_append, List.length_cons]
      omega
    have hcount : (line ++ byte '\n' :: rest).count (byte '\n') = rest.count (byte '\n') + 1 := by
      rw [List.count_append, List.count_cons_self, List.count_eq_zero_of_not_mem hline, Nat.zero_add]
    have hlines : countLines (line ++ byte '\n' :: rest) = countLines rest + 1 := by
      unfold countLines
      rw [physicalLines_line hline, List.length_cons]
    rw [hlines, hcount, if_neg (by simp), countLines_eq rest]
    by_cases hrest : rest = []
    · subst hrest
      simp [endsWith_newline]
    · have hends : (line ++ byte '\n' :: rest).getLast? = rest.getLast? := by
        obtain ⟨x, hx⟩ := Option.ne_none_iff_exists'.mp (mt List.getLast?_eq_none_iff.mp hrest)
        rw [List.append_cons, List.getLast?_append, hx]
        rfl
      simp only [endsWith_newline, hends, if_neg hrest]
      omega
  · by_cases hnil : src = []
    · subst hnil
      rfl
    · have hlast : src.endsWith "\n" = false := by
        rw [Bool.eq_false_iff, ne_eq, endsWith_newline]
        exact fun h => hnewline (List.mem_of_getLast? h)
      rw [countLines, physicalLines_single hnewline hnil, if_neg hnil, hlast,
        List.count_eq_zero_of_not_mem hnewline]
      rfl
termination_by src.length

/-! ## Taking one line -/

/-- What is left of a text behind its first line. -/
def dropLine (t : Text) : Text :=
  match t.takeLine? with
  | none => t
  | some (_, rest) => rest

theorem takeLine?_single {t : Text} (h : byte '\n' ∉ t) (hne : t ≠ []) :
    t.takeLine? = some (t, []) := by
  induction t with
  | nil => exact absurd rfl hne
  | cons b r ih =>
    rw [List.mem_cons, not_or] at h
    rw [takeLine?, if_neg (Ne.symm h.1)]
    by_cases hr : r = []
    · simp [hr, takeLine?]
    · simp [ih h.2 hr]

/-- White space at the end makes no difference to the trimmed text, a newline in particular. -/
theorem trim_newline (t : Text) : (t ++ [byte '\n']).trim = t.trim := by
  have hascii : byte '\n' < 0x80 := by decide
  have hrunes : (t ++ [byte '\n']).runes = t.runes ++ [⟨some (byte '\n').toNat, [byte '\n']⟩] := by
    rw [runes_append t (.ascii hascii []), runes_ascii hascii]
    rfl
  have hspace : Rune.isSpace ⟨some (byte '\n').toNat, [byte '\n']⟩ = true := by decide
  unfold trim
  rw [hrunes, List.dropWhile_append]
  by_cases hnil : t.runes.dropWhile Rune.isSpace = []
  · simp [hnil, hspace]
  · have hempty : (t.runes.dropWhile Rune.isSpace).isEmpty = false := by simpa using hnil
    rw [hempty, if_neg Bool.false_ne_true, List.reverse_append, List.reverse_singleton,
      List.singleton_append, List.dropWhile_cons_of_pos hspace]

/-- **Taking a line takes the first physical line**: what is left has the other ones, and the text
taken is that line but for its newline. -/
theorem takeLine?_eq (t : Text) :
    (t.takeLine?.map fun taken => taken.1.trim) = (t.physicalLines.head?.map trim) ∧
      t.dropLine.physicalLines = t.physicalLines.tail := by
  unfold dropLine
  by_cases hnewline : byte '\n' ∈ t
  · obtain ⟨line, rest, rfl, hline⟩ := List.eq_append_cons_of_mem hnewline
    rw [takeLine?_line hline, physicalLines_line hline]
    exact ⟨by simp [trim_newline], rfl⟩
  · by_cases hnil : t = []
    · subst hnil
      exact ⟨rfl, rfl⟩
    · rw [takeLine?_single hnewline hnil, physicalLines_single hnewline hnil]
      exact ⟨rfl, rfl⟩

end Text

end TinyLang
