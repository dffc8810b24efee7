import TinyLang.Text.Integer
import TinyLang.Text.Quoted
import TinyLang.Text.Space

/-!
# Versions

A version is three numbers and a stage: a release, or a numbered beta or alpha before it. Numbers
are 64-bit integers, and versions are compared by the signs of differences that wrap around.

A constraint is a version behind an optional operator: `~` asks for the same major and minor number
or later, `^` for the same major number or later, and `>`, `>=`, `<`, `<=` compare; without an
operator the version must be the same.
-/

namespace TinyLang

/-! ## Integers from text -/

/-- Why a text is no integer. -/
inductive IntegerError
  | malformed (text : Text)
  | outOfRange (text : Text)
deriving DecidableEq, Repr

/-- The wording of an integer error. -/
def IntegerError.message : IntegerError → Text
  | malformed t => "strconv.Atoi: parsing " ++ t.quoted ++ ": invalid syntax"
  | outOfRange t => "strconv.Atoi: parsing " ++ t.quoted ++ ": value out of range"

/-- Reads a 64-bit integer. -/
def readInt64 (t : Text) : Except IntegerError Int64 :=
  match t.readInt64 false with
  | .ok n => .ok n
  | .error .malformed => .error (.malformed t)
  | .error .outOfRange => .error (.outOfRange t)

/-! ## Versions -/

/-- How far a version is. -/
inductive Stage
  | alpha
  | beta
  | release
deriving DecidableEq, Repr

/-- A version. Only an alpha or a beta has a stage number. -/
structure Version where
  major : Int64
  minor : Int64
  patch : Int64
  stage : Stage
  stageNumber : Int64
deriving DecidableEq

/-- Why a text is no version. -/
inductive VersionError
  | malformed (text : Text)
  | unknownStage (text : Text)
  | badNumber (e : IntegerError)
deriving DecidableEq, Repr

/-- The wording of a version error. -/
def VersionError.message : VersionError → Text
  | malformed t => "invalid version: " ++ t.quoted
  | unknownStage t => "invalid prerelease type: " ++ t
  | badNumber e => e.message

namespace Version

/-- Reads a number of a version. -/
def readPart (t : Text) : Except VersionError Int64 :=
  match readInt64 t with
  | .ok n => .ok n
  | .error e => .error (.badNumber e)

/-- Reads a stage and its number, the text after the dash. A missing number is zero. -/
def readStage (t : Text) : Except VersionError (Stage × Int64) := do
  let (kind, number) := (t.cut? (Text.byte '.')).getD (t, [])
  let stage ←
    if kind = "beta" then .ok Stage.beta
    else if kind = "alpha" then .ok Stage.alpha
    else .error (.unknownStage t)
  let n ← if number.isEmpty then .ok 0 else readPart number
  return (stage, n)

/-- Reads a version. A `v` may stand before it. -/
def read (text : Text) : Except VersionError Version := do
  let body : Text := if text.startsWith "v" then text.drop 1 else text
  match body.cut? (Text.byte '.') with
  | none => .error (.malformed text)
  | some (first, afterFirst) =>
    match afterFirst.cut? (Text.byte '.') with
    | none => .error (.malformed text)
    | some (second, third) =>
      let major ← readPart first
      let minor ← readPart second
      match third.cut? (Text.byte '-') with
      | none =>
        let patch ← readPart third
        return ⟨major, minor, patch, .release, 0⟩
      | some (patchText, stageText) =>
        let patch ← readPart patchText
        let (stage, number) ← readStage stageText
        return ⟨major, minor, patch, stage, number⟩

/-- The decimal numeral of a 64-bit integer. -/
def partText (n : Int64) : Text := Text.ofInt n.toInt

/-- The text of a version. -/
def text (v : Version) : Text :=
  partText v.major ++ "." ++ partText v.minor ++ "." ++ partText v.patch ++
    match v.stage with
    | .beta => "-beta." ++ partText v.stageNumber
    | .alpha => "-alpha." ++ partText v.stageNumber
    | .release => []

/-- The place of a stage: an alpha comes before a beta, and a beta before the release. -/
def stageRank : Stage → Int64
  | .alpha => 0
  | .beta => 1
  | .release => 2

/-- The first sign among differences that is not zero. -/
def firstSign : List Int64 → Int
  | [] => 0
  | d :: ds => if d < 0 then -1 else if 0 < d then 1 else firstSign ds

/-- Compares two versions: -1, 0 or 1. -/
def compare (a b : Version) : Int :=
  firstSign [a.major - b.major, a.minor - b.minor, a.patch - b.patch,
    stageRank a.stage - stageRank b.stage, a.stageNumber - b.stageNumber]

end Version

/-! ## Constraints -/

/-- What a constraint asks of a version compared with its own. -/
inductive Bound
  | same
  | atLeast
  | atMost
  | above
  | below
  /-- The same major and minor number, and at least. -/
  | sameMinor
  /-- The same major number, and at least. -/
  | sameMajor
deriving DecidableEq, Repr

/-- A constraint on versions. -/
structure Constraint where
  bound : Bound
  version : Version
deriving DecidableEq

namespace Constraint

/-- The operators with their spelling; a longer one stands before its own beginning. -/
def spellings : List (String × Bound) :=
  [(">=", .atLeast), ("<=", .atMost), ("~", .sameMinor), ("^", .sameMajor), (">", .above),
    ("<", .below)]

/-- Splits off the operator. -/
def takeBound (t : Text) : Bound × Text :=
  match spellings.find? fun (s, _) => t.startsWith (Text.ofString s) with
  | some (s, bound) => (bound, Text.trim (t.drop (Text.ofString s).length))
  | none => (.same, t)

/-- Reads a constraint. White space around it and behind the operator is ignored. -/
def read (t : Text) : Except VersionError Constraint := do
  let (bound, rest) := takeBound t.trim
  return ⟨bound, ← Version.read rest⟩

/-- Whether a version satisfies a constraint. -/
def admits (c : Constraint) (v : Version) : Bool :=
  let d := v.compare c.version
  match c.bound with
  | .same => d == 0
  | .atLeast => 0 ≤ d
  | .atMost => d ≤ 0
  | .above => 0 < d
  | .below => d < 0
  | .sameMinor => 0 ≤ d && v.major == c.version.major && v.minor == c.version.minor
  | .sameMajor => 0 ≤ d && v.major == c.version.major

end Constraint

/-- Whether a version satisfies a constraint given as text. -/
def Version.satisfies (v : Version) (constraint : Text) : Except VersionError Bool := do
  return (← Constraint.read constraint).admits v

end TinyLang
