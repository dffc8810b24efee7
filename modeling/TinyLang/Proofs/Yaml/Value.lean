import TinyLang.Yaml.Value
import TinyLang.Proofs.Number.Printer

/-!
# Values of written integers

A decimal numeral is neither a word, nor a point in time, nor a number in another base, so a plain
scalar of it is the integer again.

* `plainValue_ofInt`: the value of a 64-bit integer as it is written.
-/

namespace TinyLang.Yaml

open Text (byte)

/-! ## Digits -/

theorem naturalOf?_digits {t : Text} (hne : t ≠ []) (ht : ∀ b ∈ t, Text.isDigit b) :
    naturalOf? 10 t = some (Text.digitsValue t) := by
  have hfold : ∀ n, t.foldl (fun n? b => do
      let n ← n?
      let d ← digitOf? b
      if d < 10 then some (n * 10 + d) else none) (some n) =
        some (t.foldl (fun n d => n * 10 + Text.digitValue d) n) := by
    clear hne
    induction t with
    | nil => exact fun n => rfl
    | cons b t ih =>
      intro n
      obtain ⟨hb, ht⟩ := List.forall_mem_cons.mp ht
      have hdigit : digitOf? b = some (Text.digitValue b) := by simp [digitOf?, hb]
      rw [List.foldl_cons, List.foldl_cons, ← ih ht]
      simp [hdigit, Text.digitValue_lt hb]
  rw [naturalOf?, if_neg (by simpa using hne), hfold 0]
  rfl

/-- A numeral with more digits than one starts with none that is zero. -/
theorem ofNat_ne_zero_cons (n : Nat) (m : UInt8) (r : Text) : Text.ofNat n ≠ byte '0' :: m :: r := by
  intro heq
  have hdigits : ∀ b ∈ m :: r, Text.isDigit b := fun b hb =>
    Text.isDigit_ofNat b (by rw [heq]; exact List.mem_cons_of_mem _ hb)
  have hvalue : n = Text.digitsValue (m :: r) := by
    rw [← Text.digitsValue_ofNat n, heq, Text.digitsValue_cons]
    simp [Text.digitValue, byte]
  have hlength : (Text.ofNat n).length ≤ (m :: r).length := by
    rw [Text.ofNat, List.length_map]
    refine (Nat.length_toDigits_le_iff (by decide) (by simp)).mpr ?_
    rw [hvalue]
    exact Text.digitsValue_lt hdigits
  rw [heq] at hlength
  simp at hlength

theorem markedNaturalOf?_ofNat (n : Nat) : markedNaturalOf? (Text.ofNat n) = some n := by
  unfold markedNaturalOf?
  split
  · rename_i m r heq
    exact absurd heq (ofNat_ne_zero_cons n m r)
  · rw [naturalOf?_digits (Text.ofNat_ne_nil n) Text.isDigit_ofNat, Text.digitsValue_ofNat]

theorem takeSign_digits {t : Text} (ht : ∀ b ∈ t, Text.isDigit b) :
    Numeral.takeSign t = (false, t) := by
  cases t with
  | nil => rfl
  | cons b t =>
    have hb := ht b (by simp)
    have hminus : b ≠ byte '-' := by
      rintro rfl
      exact absurd hb (by decide)
    have hplus : b ≠ byte '+' := by
      rintro rfl
      exact absurd hb (by decide)
    simp [Numeral.takeSign, hminus, hplus]

theorem signedOf?_ofInt (n : Int) : signedOf? markedNaturalOf? (Text.ofInt n) = some n := by
  unfold Text.ofInt
  split
  · have hsign : Numeral.takeSign (byte '-' :: Text.ofNat n.natAbs) =
      (true, Text.ofNat n.natAbs) := rfl
    have hvalue : -(n.natAbs : Int) = n := by omega
    rw [signedOf?, hsign]
    dsimp only
    rw [markedNaturalOf?_ofNat]
    exact congrArg some hvalue
  · rw [signedOf?, takeSign_digits Text.isDigit_ofNat]
    have hvalue : (n.natAbs : Int) = n := by omega
    dsimp only
    rw [markedNaturalOf?_ofNat]
    exact congrArg some hvalue

/-! ## No other value -/

/-- A sign or a digit. -/
def isIntegerByte (b : UInt8) : Bool := Text.isDigit b || b = byte '-'

/-- A numeral is a sign or a digit, and digits behind it. -/
theorem ofInt_cases (n : Int) :
    ∃ b ds, Text.ofInt n = b :: ds ∧ (Text.isDigit b = true ∨ b = byte '-' ∧ ds ≠ []) ∧
      ∀ d ∈ ds, Text.isDigit d = true := by
  unfold Text.ofInt
  split
  · exact ⟨byte '-', Text.ofNat n.natAbs, rfl, .inr ⟨rfl, Text.ofNat_ne_nil _⟩, Text.isDigit_ofNat⟩
  · obtain ⟨b, ds, heq⟩ := List.exists_cons_of_ne_nil (Text.ofNat_ne_nil n.natAbs)
    have hdigit := Text.isDigit_ofNat (n := n.natAbs)
    rw [heq] at hdigit ⊢
    exact ⟨b, ds, rfl, .inl (hdigit b (by simp)), fun d hd => hdigit d (by simp [hd])⟩

theorem isIntegerByte_ofInt (n : Int) : (Text.ofInt n).all isIntegerByte = true ∧
    Text.ofInt n ≠ [] := by
  obtain ⟨b, ds, heq, hb, hds⟩ := ofInt_cases n
  rw [heq]
  refine ⟨?_, by simp⟩
  have hfirst : isIntegerByte b = true := by
    rcases hb with hb | ⟨rfl, -⟩
    · simp [isIntegerByte, hb]
    · decide
  simp only [List.all_cons, hfirst, Bool.true_and, List.all_eq_true]
  intro d hd
  simp [isIntegerByte, hds d hd]

theorem wordValue?_ofInt (n : Int) : wordValue? (Text.ofInt n) = none := by
  -- every word is empty or holds a byte that no numeral holds
  have hamong : ∀ words : List String,
      (words.all fun w => (Text.ofString w).isEmpty || !(Text.ofString w).all isIntegerByte) = true →
        ¬ (words.any fun w => Text.ofString w = Text.ofInt n) = true := by
    intro words hwords hany
    obtain ⟨w, hw, heq⟩ := List.any_eq_true.mp hany
    have hword := List.all_eq_true.mp hwords w hw
    rw [of_decide_eq_true heq] at hword
    obtain ⟨hall, hne⟩ := isIntegerByte_ofInt n
    simp [hall, hne] at hword
  unfold wordValue?
  dsimp only
  rw [if_neg (hamong _ (by decide)), if_neg (hamong _ (by decide)), if_neg (hamong _ (by decide)),
    if_neg (hamong _ (by decide)), if_neg (hamong _ (by decide)), if_neg (hamong _ (by decide))]

theorem read?_ofInt (n : Int) : Timestamp.read? (Text.ofInt n) = none := by
  obtain ⟨b, ds, heq, -, hds⟩ := ofInt_cases n
  have hminus : takeByte? '-' ((Text.ofInt n).drop 4) = none := by
    rw [heq]
    cases hdrop : ds.drop 3 with
    | nil => simp [hdrop, takeByte?]
    | cons d ds' =>
      have hd : Text.isDigit d = true := hds d (List.mem_of_mem_drop (i := 3) (by simp [hdrop]))
      have hne : d ≠ byte '-' := by
        rintro rfl
        exact absurd hd (by decide)
      simp [hdrop, takeByte?, hne]
  have hdate : Timestamp.takeDate? (Text.ofInt n) = none := by
    unfold Timestamp.takeDate?
    dsimp only
    rw [hminus]
    split <;> rfl
  rw [Timestamp.read?, hdate]
  rfl

theorem startsWord_of_isDigit : ∀ b : UInt8, Text.isDigit b = true → startsWord b = false ∧
    b ≠ byte '.' :=
  Text.forall_byte (by decide +kernel)

/-- **The value of a written integer.** -/
theorem plainValue_ofInt (wantTime : Bool) {n : Int} (hlow : -0x8000000000000000 ≤ n)
    (hhigh : n < 0x8000000000000000) : plainValue wantTime (Text.ofInt n) = .int n := by
  have htime : (if wantTime then Timestamp.read? (Text.ofInt n) else none) = none := by
    cases wantTime
    · rfl
    · exact read?_ofInt n
  have hplain : (Text.ofInt n).filter (· != byte '_') = Text.ofInt n := by
    rw [List.filter_eq_self]
    intro b hb
    have hbyte := List.all_eq_true.mp (isIntegerByte_ofInt n).1 b hb
    have hne : b ≠ byte '_' := by
      rintro rfl
      exact absurd hbyte (by decide)
    simpa using hne
  have hnumeric : numericValue? wantTime (Text.ofInt n) = some (.int n) := by
    unfold numericValue?
    rw [htime]
    dsimp only
    rw [hplain, signedOf?_ofInt, fittingInt?, Option.filter_some_pos (by simp [hlow, hhigh])]
  obtain ⟨b, ds, heq, hb, -⟩ := ofInt_cases n
  have hword := wordValue?_ofInt n
  have hstart : startsWord b = false ∧ b ≠ byte '.' := by
    rcases hb with hb | ⟨rfl, -⟩
    · exact startsWord_of_isDigit b hb
    · decide
  have hsign : (Text.isDigit b || b = byte '+' || b = byte '-') = true := by
    rcases hb with hb | ⟨hb, -⟩ <;> simp [hb]
  rw [heq] at hnumeric hword ⊢
  rw [plainValue, hstart.1, if_neg (by simp), if_neg hstart.2, if_pos hsign, hword, hnumeric]
  rfl

end TinyLang.Yaml
