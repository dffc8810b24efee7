import TinyLang.Text.Basic

/-!
# Runes

A text is read as a sequence of runes: each well-formed UTF-8 sequence is one rune with a code
point, and each byte that starts no well-formed sequence is a rune of its own without one. No byte
is lost: the runes' bytes concatenate to the text (`Text.ofRunes_runes`).
-/

namespace TinyLang

/-- One unit of text: its bytes, and its code point unless it is a stray byte. -/
structure Rune where
  code? : Option Nat
  bytes : Text
deriving Repr, DecidableEq

namespace Rune

/-- The stray byte `b`. -/
def stray (b : UInt8) : Rune := ⟨none, [b]⟩

/-- Whether a byte continues a multi-byte sequence. -/
def isContinuation (b : UInt8) : Bool := 0x80 ≤ b && b ≤ 0xBF

/-- The range of the byte after a leading byte `b`: narrower than all continuation bytes where
the full range would allow an overlong form, a surrogate or a code point past the last one. -/
def secondRange (b : UInt8) : UInt8 × UInt8 :=
  if b = 0xE0 then (0xA0, 0xBF)
  else if b = 0xED then (0x80, 0x9F)
  else if b = 0xF0 then (0x90, 0xBF)
  else if b = 0xF4 then (0x80, 0x8F)
  else (0x80, 0xBF)

/-- Whether `c` may stand after the leading byte `b`. -/
def mayFollow (b c : UInt8) : Bool := (secondRange b).1 ≤ c && c ≤ (secondRange b).2

/-- The rune at the head of `b :: rest`. -/
def first (b : UInt8) (rest : Text) : Rune :=
  if b < 0x80 then ⟨some b.toNat, [b]⟩
  else if 0xC2 ≤ b && b ≤ 0xDF then
    match rest with
    | c :: _ =>
      if isContinuation c then ⟨some ((b.toNat - 0xC0) * 64 + (c.toNat - 0x80)), [b, c]⟩
      else stray b
    | _ => stray b
  else if 0xE0 ≤ b && b ≤ 0xEF then
    match rest with
    | c :: d :: _ =>
      if mayFollow b c && isContinuation d then
        ⟨some ((b.toNat - 0xE0) * 4096 + (c.toNat - 0x80) * 64 + (d.toNat - 0x80)), [b, c, d]⟩
      else stray b
    | _ => stray b
  else if 0xF0 ≤ b && b ≤ 0xF4 then
    match rest with
    | c :: d :: e :: _ =>
      if mayFollow b c && isContinuation d && isContinuation e then
        ⟨some ((b.toNat - 0xF0) * 262144 + (c.toNat - 0x80) * 4096 + (d.toNat - 0x80) * 64
          + (e.toNat - 0x80)), [b, c, d, e]⟩
      else stray b
    | _ => stray b
  else stray b

/-- The UTF-8 bytes of a code point. -/
def encode (c : Nat) : Text :=
  if c < 0x80 then [c.toUInt8]
  else if c < 0x800 then [(0xC0 + c / 64).toUInt8, (0x80 + c % 64).toUInt8]
  else if c < 0x10000 then
    [(0xE0 + c / 4096).toUInt8, (0x80 + c / 64 % 64).toUInt8, (0x80 + c % 64).toUInt8]
  else
    [(0xF0 + c / 262144).toUInt8, (0x80 + c / 4096 % 64).toUInt8, (0x80 + c / 64 % 64).toUInt8,
      (0x80 + c % 64).toUInt8]

end Rune

namespace Text

/-- The runes of a text whose first `skip` bytes are already spoken for. -/
def runesFrom : Nat → Text → List Rune
  | _, [] => []
  | skip + 1, _ :: r => runesFrom skip r
  | 0, b :: r =>
    let rune := Rune.first b r
    rune :: runesFrom (rune.bytes.length - 1) r

/-- The runes of a text. -/
def runes (t : Text) : List Rune := runesFrom 0 t

/-- The bytes of a sequence of runes. -/
def ofRunes (rs : List Rune) : Text := rs.flatMap Rune.bytes

end Text

/-! ## What a rune can be -/

namespace Rune

/-- What the rune at the head of `b :: rest` can be: a stray byte, or the code point that one to four
bytes stand for. -/
inductive Heads (b : UInt8) : Text → Rune → Prop
  | stray {rest : Text} : Heads b rest (stray b)
  | one {rest : Text} (hb : b < 0x80) : Heads b rest ⟨some b.toNat, [b]⟩
  | two {c : UInt8} {rest : Text} (hb : (0xC2 ≤ b && b ≤ 0xDF) = true)
      (hc : isContinuation c = true) :
      Heads b (c :: rest) ⟨some ((b.toNat - 0xC0) * 64 + (c.toNat - 0x80)), [b, c]⟩
  | three {c d : UInt8} {rest : Text} (hb : (0xE0 ≤ b && b ≤ 0xEF) = true)
      (hc : mayFollow b c = true) (hd : isContinuation d = true) :
      Heads b (c :: d :: rest)
        ⟨some ((b.toNat - 0xE0) * 4096 + (c.toNat - 0x80) * 64 + (d.toNat - 0x80)), [b, c, d]⟩
  | four {c d e : UInt8} {rest : Text} (hb : (0xF0 ≤ b && b ≤ 0xF4) = true)
      (hc : mayFollow b c = true) (hd : isContinuation d = true) (he : isContinuation e = true) :
      Heads b (c :: d :: e :: rest)
        ⟨some ((b.toNat - 0xF0) * 262144 + (c.toNat - 0x80) * 4096 + (d.toNat - 0x80) * 64
          + (e.toNat - 0x80)), [b, c, d, e]⟩

theorem heads_first (b : UInt8) (r : Text) : Heads b r (first b r) := by
  unfold first
  split
  · exact .one ‹_›
  split
  · split
    · split
      · exact .two ‹_› ‹_›
      · exact .stray
    · exact .stray
  split
  · split
    · split
      next hcd =>
        rw [Bool.and_eq_true] at hcd
        exact .three ‹_› hcd.1 hcd.2
      · exact .stray
    · exact .stray
  split
  · split
    · split
      next hcde =>
        rw [Bool.and_eq_true, Bool.and_eq_true] at hcde
        exact .four ‹_› hcde.1.1 hcde.1.2 hcde.2
      · exact .stray
    · exact .stray
  · exact .stray

end Rune

/-! ## No byte is lost -/

/-- The rune at the head starts with the head byte and is a beginning of the text. -/
theorem Rune.first_bytes (b : UInt8) (r : Text) :
    ∃ s, (first b r).bytes = b :: s ∧ s <+: r := by
  have h := heads_first b r
  generalize first b r = x at h
  cases h with
  | stray => exact ⟨[], rfl, List.nil_prefix⟩
  | one => exact ⟨[], rfl, List.nil_prefix⟩
  | two => exact ⟨_, rfl, by simp⟩
  | three => exact ⟨_, rfl, by simp [List.cons_prefix_cons]⟩
  | four => exact ⟨_, rfl, by simp [List.cons_prefix_cons]⟩

theorem Text.ofRunes_runesFrom (skip : Nat) (t : Text) :
    ofRunes (runesFrom skip t) = t.drop skip := by
  induction t generalizing skip with
  | nil => cases skip <;> rfl
  | cons b r ih =>
    cases skip with
    | succ n => simpa [runesFrom] using ih n
    | zero =>
      obtain ⟨s, hs, u, hu⟩ := Rune.first_bytes b r
      have hrest : (runesFrom s.length r).flatMap Rune.bytes = u := by
        simpa [ofRunes, ← hu] using ih s.length
      simp [runesFrom, ofRunes, hs, hrest, hu]

theorem Text.ofRunes_runes (t : Text) : ofRunes t.runes = t :=
  ofRunes_runesFrom 0 t

end TinyLang
