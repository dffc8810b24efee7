import TinyLang.Text.Rune

/-!
# Wildcards

A pattern for names: `*` stands for any bytes, `?` for one rune, `[a-z]` for one rune of a class and
`[^a-z]` for one outside of it, and a backslash takes the byte behind it as it is. A pattern is cut
into *runs* without stars. Each run is found at its first possible place, and only the last one may be
found further behind, because it has to reach the end.
-/

namespace TinyLang

/-- What stands for one byte or rune of a name. -/
inductive Wildcard.Symbol
  | byte (b : UInt8)
  | anyRune
  /-- A rune in some of the ranges, or in none of them. -/
  | rune (outside : Bool) (ranges : List (Nat × Nat))
deriving DecidableEq, Repr

/-- Symbols, with a star in front of them or not. -/
structure Wildcard.Run where
  star : Bool
  symbols : List Wildcard.Symbol
deriving DecidableEq, Repr

/-- A pattern for names. -/
abbrev Wildcard := List Wildcard.Run

namespace Wildcard

/-! ## Reading patterns -/

/-- The code point that a stray byte counts as in a class. -/
def strayCode : Nat := 0xFFFD

/-- Takes a code point of a class, which a backslash may stand in front of. Something must follow. -/
def takeCode? : Text → Option (Nat × Text)
  | [] => none
  | b :: rest =>
    if b = Text.byte '-' || b = Text.byte ']' then none
    else
      let t := if b = Text.byte '\\' then rest else b :: rest
      match t with
      | [] => none
      | b :: rest =>
        let r := Rune.first b rest
        let after := t.drop r.bytes.length
        match r.code? with
        | some c => if after.isEmpty then none else some (c, after)
        | none => none

/-- Takes the ranges of a class with the bracket behind them. -/
def takeRanges? : (fuel : Nat) → List (Nat × Nat) → Text → Option (List (Nat × Nat) × Text)
  | 0, _, _ => none
  | fuel + 1, ranges, t =>
    match t, ranges with
    | 0x5D :: rest, _ :: _ => some (ranges, rest)
    | _, _ => do
      let (low, after) ← takeCode? t
      let (high, after) ← match after with
        | 0x2D :: rest => takeCode? rest
        | _ => some (low, after)
      takeRanges? fuel ((low, high) :: ranges) after

/-- Takes a class behind its opening bracket. -/
def takeClass? (t : Text) : Option (Symbol × Text) := do
  let outside := t.head? = some (Text.byte '^')
  let (ranges, rest) ← takeRanges? (t.length + 1) [] (if outside then t.drop 1 else t)
  return (.rune outside ranges, rest)

/-- A symbol in front of the runs behind it. -/
def addSymbol (s : Symbol) : Wildcard → Wildcard
  | [] => [⟨false, [s]⟩]
  | r :: rest => if r.star then ⟨false, [s]⟩ :: r :: rest else ⟨false, s :: r.symbols⟩ :: rest

/-- A star in front of the runs behind it. -/
def addStar : Wildcard → Wildcard
  | [] => [⟨true, []⟩]
  | r :: rest => ⟨true, r.symbols⟩ :: rest

/-- Reads a pattern; `none` if it is malformed. -/
def read? : (fuel : Nat) → Text → Option Wildcard
  | 0, _ => none
  | _, [] => some []
  | fuel + 1, b :: rest =>
    if b = Text.byte '*' then (read? fuel rest).map addStar
    else if b = Text.byte '?' then (read? fuel rest).map (addSymbol .anyRune)
    else if b = Text.byte '[' then do
      let (s, rest) ← takeClass? rest
      (read? fuel rest).map (addSymbol s)
    else if b = Text.byte '\\' then
      match rest with
      | [] => none
      | c :: rest => (read? fuel rest).map (addSymbol (.byte c))
    else (read? fuel rest).map (addSymbol (.byte b))

/-- The pattern that a text writes; `none` if it is malformed. -/
def ofText? (t : Text) : Option Wildcard := read? (t.length + 1) t

/-! ## Matching -/

/-- Takes what a symbol stands for from the front of a name. -/
def Symbol.take? (s : Symbol) : Text → Option Text
  | [] => none
  | b :: rest =>
    let r := Rune.first b rest
    match s with
    | .byte c => if b = c then some rest else none
    | .anyRune => some ((b :: rest).drop r.bytes.length)
    | .rune outside ranges =>
      let c := r.code?.getD strayCode
      let inside := ranges.any fun (low, high) => low ≤ c && c ≤ high
      if inside = outside then none else some ((b :: rest).drop r.bytes.length)

/-- Takes what a sequence of symbols stands for. -/
def takeAll? : List Symbol → Text → Option Text
  | [], t => some t
  | s :: rest, t => (s.take? t).bind (takeAll? rest)

/-- Takes a run at the first place where it can be found, which is the front if there is no star. What
is behind it must pass a test. -/
def findRun? (r : Run) (passes : Text → Bool) : Text → Option Text
  | [] => (takeAll? r.symbols []).filter passes
  | b :: rest =>
    match (takeAll? r.symbols (b :: rest)).filter passes with
    | some t => some t
    | none => if r.star then findRun? r passes rest else none

/-- Whether a pattern accepts a whole name. -/
def accepts : Wildcard → Text → Bool
  | [], t => t.isEmpty
  | [r], t => (r.star && r.symbols.isEmpty) || (findRun? r List.isEmpty t).isSome
  | r :: rest, t =>
    match findRun? r (fun _ => true) t with
    | some t => accepts rest t
    | none => false

end Wildcard

/-- Whether a pattern accepts a name. A malformed pattern accepts none. -/
def Text.isLike (name pattern : Text) : Bool :=
  (Wildcard.ofText? pattern).any fun w => w.accepts name

end TinyLang
