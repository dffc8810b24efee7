import TinyLang.Yaml.Character
import TinyLang.Proofs.Text.Encoding

/-!
# Decoding the bytes of characters

The UTF-8 bytes of allowed characters are decoded as these characters, also if the bytes come in
pieces that cut a character in two.

* `decodeRun_encodeChars`: a beginning of the bytes gives a beginning of the characters, and the bytes
  that are not decoded are the first ones of those that are still to come.
-/

namespace TinyLang.Yaml

@[simp]
theorem encodeChars_nil : encodeChars [] = [] := rfl

theorem encodeChars_cons (c : Char) (cs : List Char) :
    encodeChars (c :: cs) = Rune.encode c.toNat ++ encodeChars cs := rfl

theorem encodeChars_append (cs ds : List Char) :
    encodeChars (cs ++ ds) = encodeChars cs ++ encodeChars ds :=
  List.flatMap_append

/-! ## One character -/

theorem leading?_two : ∀ b : UInt8, 0xC0 ≤ b.toNat → b.toNat < 0xE0 →
    leading? b = some (2, b.toNat - 0xC0) :=
  Text.forall_byte (by decide +kernel)

theorem leading?_three : ∀ b : UInt8, 0xE0 ≤ b.toNat → b.toNat < 0xF0 →
    leading? b = some (3, b.toNat - 0xE0) :=
  Text.forall_byte (by decide +kernel)

theorem leading?_four : ∀ b : UInt8, 0xF0 ≤ b.toNat → b.toNat < 0xF8 →
    leading? b = some (4, b.toNat - 0xF0) :=
  Text.forall_byte (by decide +kernel)

theorem toNat_toUInt8 {n : Nat} (h : n < 256) : n.toUInt8.toNat = n := by
  simp [Nat.toUInt8, Nat.mod_eq_of_lt h]

theorem isContinuation_low (n : Nat) : Rune.isContinuation (0x80 + n % 64).toUInt8 = true := by
  have h : (0x80 + n % 64).toUInt8.toNat = 0x80 + n % 64 := toNat_toUInt8 (by omega)
  simp only [Rune.isContinuation, Bool.and_eq_true, decide_eq_true_eq, UInt8.le_iff_toNat_le, h]
  simp
  omega

/-- The first byte of a code point tells how many others follow, and these give the code point. -/
theorem encode_spec {c : Nat} (hc : c < 0x110000) :
    ∃ b tail bits, Rune.encode c = b :: tail ∧ leading? b = some (tail.length + 1, bits) ∧
      tail.all Rune.isContinuation = true ∧
      tail.foldl (fun n (t : UInt8) => n * 64 + (t.toNat - 0x80)) bits = c ∧
      leastOfWidth (tail.length + 1) ≤ c := by
  have hlow : ∀ n : Nat, (0x80 + n % 64).toUInt8.toNat - 0x80 = n % 64 := fun n => by
    rw [toNat_toUInt8 (by omega)]
    omega
  unfold Rune.encode
  by_cases h1 : c < 0x80
  · have hb : c.toUInt8.toNat = c := toNat_toUInt8 (by omega)
    refine ⟨c.toUInt8, [], c, by rw [if_pos h1], ?_, rfl, rfl, Nat.zero_le _⟩
    rw [leading?, if_pos (by rw [UInt8.lt_iff_toNat_lt, hb]; exact h1), hb]
    rfl
  by_cases h2 : c < 0x800
  · have hb : (0xC0 + c / 64).toUInt8.toNat = 0xC0 + c / 64 := toNat_toUInt8 (by omega)
    have hlead := leading?_two (0xC0 + c / 64).toUInt8 (by omega) (by omega)
    refine ⟨_, _, _, by rw [if_neg h1, if_pos h2], hlead, ?_, ?_, ?_⟩
    · simp only [List.all_cons, List.all_nil, isContinuation_low, Bool.and_self]
    · simp only [List.foldl, hlow, hb]
      omega
    · simp [leastOfWidth]
      omega
  by_cases h3 : c < 0x10000
  · have hb : (0xE0 + c / 4096).toUInt8.toNat = 0xE0 + c / 4096 := toNat_toUInt8 (by omega)
    have hlead := leading?_three (0xE0 + c / 4096).toUInt8 (by omega) (by omega)
    refine ⟨_, _, _, by rw [if_neg h1, if_neg h2, if_pos h3], hlead, ?_, ?_, ?_⟩
    · simp only [List.all_cons, List.all_nil, isContinuation_low, Bool.and_self]
    · simp only [List.foldl, hlow, hb]
      omega
    · simp [leastOfWidth]
      omega
  · have hb : (0xF0 + c / 262144).toUInt8.toNat = 0xF0 + c / 262144 := toNat_toUInt8 (by omega)
    have hlead := leading?_four (0xF0 + c / 262144).toUInt8 (by omega) (by omega)
    refine ⟨_, _, _, by rw [if_neg h1, if_neg h2, if_neg h3], hlead, ?_, ?_, ?_⟩
    · simp only [List.all_cons, List.all_nil, isContinuation_low, Bool.and_self]
    · simp only [List.foldl, hlow, hb]
      omega
    · simp [leastOfWidth]
      omega

theorem toNat_char_lt (c : Char) : c.toNat < 0x110000 := by
  rcases c.valid with h | h <;> simp only [Char.toNat] <;> omega

theorem encodeChars_eq_nil {cs : List Char} (h : encodeChars cs = []) : cs = [] := by
  cases cs with
  | nil => rfl
  | cons c cs =>
    obtain ⟨b, tail, bits, hencode, -⟩ := encode_spec (toNat_char_lt c)
    simp [encodeChars_cons, hencode] at h

theorem toNat_char_not_surrogate (c : Char) : ¬ (0xD800 ≤ c.toNat ∧ c.toNat ≤ 0xDFFF) := by
  rcases c.valid with h | h <;> simp only [Char.toNat] <;> omega

/-- The bytes of an allowed character are decoded as that character, and a part of them is known to
be cut off. -/
theorem decodeFirst_encode {c : Char} (hc : isAllowed c.toNat = true) :
    ∃ b tail, Rune.encode c.toNat = b :: tail ∧
      (∀ more, decodeFirst b (tail ++ more) = .ok (c, tail.length + 1)) ∧
      ∀ short, short.length < tail.length → decodeFirst b short = .error .truncated := by
  obtain ⟨b, tail, bits, hencode, hlead, hcont, hfold, hleast⟩ := encode_spec (toNat_char_lt c)
  refine ⟨b, tail, hencode, fun more => ?_, fun short hshort => ?_⟩
  · have hsurrogate := toNat_char_not_surrogate c
    have hlast := toNat_char_lt c
    simp [decodeFirst, hlead, hcont, hfold, Nat.not_lt.mpr hleast, allowedChar, hc, Char.ofNat_toNat,
      Except.map]
    omega
  · simp [decodeFirst, hlead, hshort]

/-! ## Pieces -/

theorem decodeRun_skip (e : Encoding) (done : List Char) (a more : Text) :
    decodeRun e a.length done (a ++ more) = decodeRun e 0 done more := by
  induction a with
  | nil => rfl
  | cons b a ih => exact ih

/-- **Decoding a piece.** A beginning of the bytes of characters gives the first of them. What is left
is part of one character, so that nothing is wrong with it but that it is cut off. -/
theorem decodeRun_encodeChars {cs : List Char} (hcs : ∀ c ∈ cs, isAllowed c.toNat = true)
    {piece more : Text} (h : encodeChars cs = piece ++ more) (done : List Char) :
    ∃ before after rest fault, cs = before ++ after ∧
      decodeRun .utf8 0 done piece = ⟨done.reverse ++ before, rest, fault⟩ ∧
      encodeChars after = rest ++ more ∧ fault.all EncodingFault.isTruncation = true ∧
      (more = [] → fault = none ∧ after = []) := by
  induction cs generalizing piece done with
  | nil =>
    obtain ⟨rfl, rfl⟩ : piece = [] ∧ more = [] := by simpa using h
    exact ⟨[], [], [], none, rfl, by simp [decodeRun], rfl, rfl, fun _ => ⟨rfl, rfl⟩⟩
  | cons c cs ih =>
    obtain ⟨b, tail, hencode, hwhole, hcut⟩ := decodeFirst_encode (hcs c (by simp))
    rw [encodeChars_cons, hencode, List.cons_append] at h
    cases piece with
    | nil =>
      refine ⟨[], c :: cs, [], none, rfl, by simp [decodeRun], ?_, rfl, fun hmore => ?_⟩
      · rw [encodeChars_cons, hencode, List.cons_append, h]
      · simp [hmore] at h
    | cons b' piece =>
      obtain ⟨rfl, htail⟩ : b = b' ∧ tail ++ encodeChars cs = piece ++ more := List.cons.inj h
      -- either the piece holds all bytes of the character, or it ends within them
      by_cases hlen : piece.length < tail.length
      · refine ⟨[], c :: cs, b :: piece, some .truncated, rfl, ?_, ?_, rfl, fun hmore => ?_⟩
        · simp [decodeRun, Encoding.first, hcut piece hlen]
        · rw [encodeChars_cons, hencode, List.cons_append, h]
        · have := congrArg List.length htail
          simp [hmore] at this
          omega
      · obtain ⟨u, rfl⟩ : tail <+: piece :=
          List.prefix_of_prefix_length_le ⟨_, rfl⟩ ⟨more, htail.symm⟩ (by omega)
        rw [List.append_assoc] at htail
        obtain ⟨before, after, rest, fault, hsplit, hrun, hafter, hfault, hend⟩ :=
          ih (fun d hd => hcs d (by simp [hd])) (List.append_cancel_left htail) (c :: done)
        refine ⟨c :: before, after, rest, fault, by rw [hsplit]; rfl, ?_, hafter, hfault, hend⟩
        rw [decodeRun, Encoding.first, hwhole u]
        dsimp only
        rw [Nat.add_sub_cancel, decodeRun_skip, hrun]
        simp

end TinyLang.Yaml
