import TinyLang.Proofs.Number.Reader
import TinyLang.Proofs.Text.Runes

/-!
# Code points, their bytes and their digits

* `Rune.encode_first`: a rune with a code point has the bytes of that code point.
* `Text.exists_first`: a rune of a text stands at the head of a rest of it.
* `Text.exists_ofNatHex`: the hexadecimal digits that a number is written with are its own.
-/

namespace TinyLang

/-! ## The bytes of a code point -/

namespace Rune

theorem toUInt8_eq {n : Nat} {b : UInt8} (h : n = b.toNat) : n.toUInt8 = b := by
  rw [h]
  simp

theorem range_toNat {low b high : UInt8} (h : (decide (low ≤ b) && decide (b ≤ high)) = true) :
    low.toNat ≤ b.toNat ∧ b.toNat ≤ high.toNat := by
  simpa only [Bool.and_eq_true, decide_eq_true_eq, UInt8.le_iff_toNat_le] using h

theorem isContinuation_bounds {b : UInt8} (h : isContinuation b = true) :
    0x80 ≤ b.toNat ∧ b.toNat ≤ 0xBF := range_toNat h

/-- The second byte of a code point, by the first. -/
theorem mayFollow_bounds {b c : UInt8} (h : mayFollow b c = true) :
    (0x80 ≤ c.toNat ∧ c.toNat ≤ 0xBF) ∧ (b.toNat = 0xE0 → 0xA0 ≤ c.toNat) ∧
      (b.toNat = 0xED → c.toNat ≤ 0x9F) ∧ (b.toNat = 0xF0 → 0x90 ≤ c.toNat) ∧
      (b.toNat = 0xF4 → c.toNat ≤ 0x8F) := by
  have hle : (secondRange b).1.toNat ≤ c.toNat ∧ c.toNat ≤ (secondRange b).2.toNat := range_toNat h
  refine ⟨isContinuation_bounds (isContinuation_of_mayFollow h), fun hb => ?_, fun hb => ?_,
    fun hb => ?_, fun hb => ?_⟩
  all_goals
    rw [show b = UInt8.ofNat b.toNat by simp, hb] at hle
    first | exact hle.1 | exact hle.2

theorem encode_one {b : UInt8} (hb : b.toNat < 0x80) : encode b.toNat = [b] := by
  rw [encode, if_pos hb, toUInt8_eq rfl]

theorem encode_two {b c : UInt8} (hb : 0xC2 ≤ b.toNat ∧ b.toNat ≤ 0xDF)
    (hc : 0x80 ≤ c.toNat ∧ c.toNat ≤ 0xBF) :
    encode ((b.toNat - 0xC0) * 64 + (c.toNat - 0x80)) = [b, c] := by
  rw [encode, if_neg (by omega), if_pos (by omega), toUInt8_eq (b := b) (by omega),
    toUInt8_eq (b := c) (by omega)]

theorem encode_three {b c d : UInt8} (hb : 0xE0 ≤ b.toNat ∧ b.toNat ≤ 0xEF)
    (hc : 0x80 ≤ c.toNat ∧ c.toNat ≤ 0xBF) (hd : 0x80 ≤ d.toNat ∧ d.toNat ≤ 0xBF)
    (hlow : b.toNat = 0xE0 → 0xA0 ≤ c.toNat) :
    encode ((b.toNat - 0xE0) * 4096 + (c.toNat - 0x80) * 64 + (d.toNat - 0x80)) = [b, c, d] := by
  rw [encode, if_neg (by omega), if_neg (by omega), if_pos (by omega), toUInt8_eq (b := b) (by omega),
    toUInt8_eq (b := c) (by omega), toUInt8_eq (b := d) (by omega)]

theorem encode_four {b c d e : UInt8} (hb : 0xF0 ≤ b.toNat ∧ b.toNat ≤ 0xF4)
    (hc : 0x80 ≤ c.toNat ∧ c.toNat ≤ 0xBF) (hd : 0x80 ≤ d.toNat ∧ d.toNat ≤ 0xBF)
    (he : 0x80 ≤ e.toNat ∧ e.toNat ≤ 0xBF) (hlow : b.toNat = 0xF0 → 0x90 ≤ c.toNat) :
    encode ((b.toNat - 0xF0) * 262144 + (c.toNat - 0x80) * 4096 + (d.toNat - 0x80) * 64 +
      (e.toNat - 0x80)) = [b, c, d, e] := by
  rw [encode, if_neg (by omega), if_neg (by omega), if_neg (by omega), toUInt8_eq (b := b) (by omega),
    toUInt8_eq (b := c) (by omega), toUInt8_eq (b := d) (by omega), toUInt8_eq (b := e) (by omega)]

/-- The bytes of a rune with a code point are those of its code point. -/
theorem encode_first {b : UInt8} {r : Text} {n : Nat} (h : (first b r).code? = some n) :
    encode n = (first b r).bytes ∧ n.isValidChar := by
  have hhead := heads_first b r
  generalize first b r = x at h hhead ⊢
  cases hhead with
  | stray => cases h
  | one hb =>
    obtain rfl := Option.some.inj h
    have hb : b.toNat < 0x80 := UInt8.lt_iff_toNat_lt.mp hb
    exact ⟨encode_one hb, .inl (by omega)⟩
  | two hb hc =>
    obtain rfl := Option.some.inj h
    have hb : 0xC2 ≤ b.toNat ∧ b.toNat ≤ 0xDF := range_toNat hb
    have hc := isContinuation_bounds hc
    exact ⟨encode_two hb hc, .inl (by omega)⟩
  | three hb hc hd =>
    obtain rfl := Option.some.inj h
    have hb : 0xE0 ≤ b.toNat ∧ b.toNat ≤ 0xEF := range_toNat hb
    obtain ⟨hc, hlow, hsurrogate, -, -⟩ := mayFollow_bounds hc
    have hd := isContinuation_bounds hd
    refine ⟨encode_three hb hc hd hlow, ?_⟩
    by_cases hlt : b.toNat ≤ 0xED
    · exact .inl (by omega)
    · exact .inr ⟨by omega, by omega⟩
  | four hb hc hd he =>
    obtain rfl := Option.some.inj h
    have hb : 0xF0 ≤ b.toNat ∧ b.toNat ≤ 0xF4 := range_toNat hb
    obtain ⟨hc, -, -, hlow, hhigh⟩ := mayFollow_bounds hc
    have hd := isContinuation_bounds hd
    have he := isContinuation_bounds he
    exact ⟨encode_four hb hc hd he hlow, .inr ⟨by omega, by omega⟩⟩

/-- A byte of a code point is the code point, or no ASCII. -/
theorem mem_encode {c : Nat} (hc : c.isValidChar) {b : UInt8} (hb : b ∈ encode c) :
    b.toNat = c ∨ 0x80 ≤ b.toNat := by
  have hlt : c < 0x110000 := by rcases hc with h | h <;> omega
  rw [encode] at hb
  by_cases hone : c < 0x80
  · rw [if_pos hone, List.mem_singleton] at hb
    rw [hb, Nat.toUInt8_eq, UInt8.toNat_ofNat']
    exact .inl (Nat.mod_eq_of_lt (Nat.lt_trans hone (by decide)))
  refine .inr ?_
  rw [if_neg hone] at hb
  by_cases htwo : c < 0x800
  · rw [if_pos htwo] at hb
    simp only [List.mem_cons, List.not_mem_nil, or_false] at hb
    rcases hb with rfl | rfl <;> simp <;> omega
  rw [if_neg htwo] at hb
  by_cases hthree : c < 0x10000
  · rw [if_pos hthree] at hb
    simp only [List.mem_cons, List.not_mem_nil, or_false] at hb
    rcases hb with rfl | rfl | rfl <;> simp <;> omega
  · rw [if_neg hthree] at hb
    simp only [List.mem_cons, List.not_mem_nil, or_false] at hb
    rcases hb with rfl | rfl | rfl | rfl <;> simp <;> omega

end Rune

namespace Text

theorem exists_first {skip : Nat} {t : Text} {r : Rune} (h : r ∈ Text.runesFrom skip t) :
    ∃ b u, r = Rune.first b u := by
  induction t generalizing skip with
  | nil => cases skip <;> cases h
  | cons b u ih =>
    cases skip with
    | succ skip => exact ih h
    | zero =>
      rcases List.mem_cons.mp h with rfl | h
      · exact ⟨b, u, rfl⟩
      · exact ih h

/-- A rune of a text is a stray byte or a code point with its bytes. -/
theorem rune_cases {t : Text} {r : Rune} (hr : r ∈ t.runes) :
    (∃ b, r = Rune.stray b) ∨ ∃ c, r = ⟨some c, Rune.encode c⟩ ∧ c.isValidChar := by
  obtain ⟨b, u, hfirst⟩ := exists_first hr
  cases hcode : r.code? with
  | none => exact .inl (stray_of_mem_runes hr hcode)
  | some c =>
    obtain ⟨hbytes, hvalid⟩ := Rune.encode_first (hfirst ▸ hcode)
    refine .inr ⟨c, ?_, hvalid⟩
    rw [← hcode, hbytes, ← hfirst]

/-! ## Hexadecimal digits -/

theorem exists_toDigits (n : Nat) : ∃ ds : List Nat, (∀ d ∈ ds, d < 16) ∧
    Nat.toDigits 16 n = ds.map Nat.digitChar ∧ ds.foldl (fun m d => m * 16 + d) 0 = n := by
  induction n using Nat.strongRecOn with
  | ind n ih =>
    by_cases hn : n < 16
    · exact ⟨[n], by simpa using hn, Nat.toDigits_of_lt_base hn, by simp⟩
    · obtain ⟨ds, hds, hdigits, hvalue⟩ := ih (n / 16) (by omega)
      refine ⟨ds ++ [n % 16], ?_, ?_, ?_⟩
      · intro d hd
        rcases List.mem_append.mp hd with hd | hd
        · exact hds d hd
        · obtain rfl := List.mem_singleton.mp hd
          omega
      · rw [Nat.toDigits_of_base_le (by decide) (by omega), hdigits, List.map_append]
        rfl
      · rw [List.foldl_append, hvalue]
        simp
        omega

/-- The digits of a number that has a place for each of them. -/
theorem exists_ofNatHex {width n : Nat} (hwidth : 0 < width) (hn : n < 16 ^ width) :
    ∃ ds : List Nat, ds.length = width ∧ (∀ d ∈ ds, d < 16) ∧
      ofNatHex width n = ds.map (fun d => byte d.digitChar) ∧
      ds.foldl (fun m d => m * 16 + d) 0 = n := by
  obtain ⟨ds, hds, hdigits, hvalue⟩ := exists_toDigits n
  have hlength : ds.length ≤ width := by
    have := (Nat.length_toDigits_le_iff (by decide) hwidth).mpr hn
    rwa [hdigits, List.length_map] at this
  refine ⟨List.replicate (width - ds.length) 0 ++ ds, ?_, ?_, ?_, ?_⟩
  · simp
    omega
  · intro d hd
    rcases List.mem_append.mp hd with hd | hd
    · rw [(List.mem_replicate.mp hd).2]
      decide
    · exact hds d hd
  · rw [ofNatHex, hdigits]
    simp only [List.map_append, List.map_map, List.length_map, List.map_replicate]
    rfl
  · have hzeros : ∀ k, (List.replicate k 0).foldl (fun m d => m * 16 + d) 0 = 0 := by
      intro k
      induction k with
      | zero => rfl
      | succ k ih => simpa [List.replicate_succ] using ih
    rw [List.foldl_append, hzeros, hvalue]

end Text

end TinyLang
