import TinyLang.Text.Space

/-!
# Tokens

A program text is a sequence of physical lines, and a line is a sequence of words. Keywords,
operators, numbers and quoted text are told apart later; here words are only found and placed. A
token is a word with the byte offset, line and column at which it stands. Columns count runes, from
one, so a stray byte is one column wide.

Every physical line has an entry, blank ones too, so that entry `i` is line `i + 1`. A newline at
the very end starts no further line.
-/

namespace TinyLang

/-- A word and where it stands. -/
structure Token where
  word : Text
  /-- Bytes of the text before the word. -/
  offset : Nat
  /-- The line, from 1. -/
  line : Nat
  /-- The column in runes, from 1. -/
  column : Nat
deriving DecidableEq, Repr

/-- The tokens of one physical line. -/
structure Line where
  number : Nat
  tokens : List Token
deriving DecidableEq, Repr

namespace Line

/-- The words of a line. -/
def words (l : Line) : List Text := l.tokens.map Token.word

/-- Whether a line has no words. -/
def isBlank (l : Line) : Bool := l.tokens.isEmpty

end Line

/-- A rune and where it stands on its line. -/
structure PlacedRune where
  rune : Rune
  offset : Nat
  column : Nat
deriving DecidableEq, Repr

/-- Places runes from an offset and a column on. -/
def placeRunes : (offset column : Nat) → List Rune → List PlacedRune
  | _, _, [] => []
  | offset, column, r :: rs =>
    ⟨r, offset, column⟩ :: placeRunes (offset + r.bytes.length) (column + 1) rs

/-- Adds a rune in front of a sequence of tokens; `joined` says whether the first of them starts
right behind the rune. -/
def addToTokens (line : Nat) (p : PlacedRune) : Bool × List Token → Bool × List Token
  | (joined, tokens) =>
    if p.rune.isSeparator then (false, tokens)
    else match joined, tokens with
      | true, t :: ts =>
        (true, { t with word := p.rune.bytes ++ t.word, offset := p.offset, column := p.column } :: ts)
      | _, ts => (true, ⟨p.rune.bytes, p.offset, line, p.column⟩ :: ts)

/-- The tokens of the physical line `number`, whose text starts at an offset. -/
def tokensOf (number offset : Nat) (piece : Text) : List Token :=
  ((placeRunes offset 1 piece.runes).foldr (addToTokens number) (false, [])).2

namespace Text

/-- The physical lines of a text, without their newlines. -/
def physicalLines (src : Text) : List Text :=
  let ps := src.pieces (byte '\n')
  if ps.getLast? = some [] then ps.dropLast else ps

/-- The number of physical lines. -/
def countLines (src : Text) : Nat := src.physicalLines.length

/-- Numbers physical lines and finds their tokens, from a line number and an offset on. -/
def tokenizeFrom : (number offset : Nat) → List Text → List Line
  | _, _, [] => []
  | number, offset, p :: ps =>
    ⟨number, tokensOf number offset p⟩ :: tokenizeFrom (number + 1) (offset + p.length + 1) ps

/-- The lines of a text with their tokens. -/
def tokenize (src : Text) : List Line := tokenizeFrom 1 0 src.physicalLines

end Text

end TinyLang
