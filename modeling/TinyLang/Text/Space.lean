import TinyLang.Text.Rune

/-!
# White space and words

Two classes of runes separate things. *White space* is the Unicode property of that name and is
what `trim` removes at the ends of an answer or a piece of text. Words of a program are cut more
eagerly: the four ASCII information separators `1C` to `1F` separate words too, though they are
no white space.
-/

namespace TinyLang

/-- Whether a code point is white space. -/
def isSpaceCode (c : Nat) : Bool :=
  (0x09 ≤ c && c ≤ 0x0D) || c == 0x20 || c == 0x85 || c == 0xA0 || c == 0x1680 ||
    (0x2000 ≤ c && c ≤ 0x200A) || c == 0x2028 || c == 0x2029 || c == 0x202F || c == 0x205F ||
    c == 0x3000

/-- Whether a code point separates words. -/
def separatesWords (c : Nat) : Bool := isSpaceCode c || (0x1C ≤ c && c ≤ 0x1F)

namespace Rune

/-- Whether a rune is white space. -/
def isSpace (r : Rune) : Bool := r.code?.any isSpaceCode

/-- Whether a rune separates words. -/
def isSeparator (r : Rune) : Bool := r.code?.any separatesWords

end Rune

namespace Text

/-- A text without the white space at its two ends. -/
def trim (t : Text) : Text :=
  ofRunes ((t.runes.dropWhile Rune.isSpace).reverse.dropWhile Rune.isSpace).reverse

/-- Adds a rune in front of a sequence of words; `joined` says whether the first of them starts
right behind the rune. -/
def addToWords (r : Rune) : Bool × List Text → Bool × List Text
  | (joined, words) =>
    if r.isSeparator then (false, words)
    else match joined, words with
      | true, w :: ws => (true, (r.bytes ++ w) :: ws)
      | _, ws => (true, r.bytes :: ws)

/-- The words of a text: its longest runs of runes that separate nothing. -/
def words (t : Text) : List Text := (t.runes.foldr addToWords (false, [])).2

end Text

end TinyLang
