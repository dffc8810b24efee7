import TinyLang.Text.Basic

/-!
# Points in time

A plain scalar may be a date, alone, with a time of day behind spaces, or with a time of day and a
zone behind a `T`. What a point in time holds is what was written; only a fraction of a second is cut
to nine digits.
-/

namespace TinyLang.Yaml

/-- The zone of a point in time. -/
inductive Zone
  | utc
  /-- The zone of the place itself, which is written as no difference at all. -/
  | here
  /-- A difference in minutes. -/
  | offset (minutes : Int)
deriving DecidableEq, Repr

/-- A point in time. -/
structure Timestamp where
  year : Nat
  month : Nat
  day : Nat
  hour : Nat := 0
  minute : Nat := 0
  second : Nat := 0
  nanosecond : Nat := 0
  zone : Zone := .utc
deriving DecidableEq, Repr

/-- Takes one or two digits. -/
def takeTwoDigits? (t : Text) : Option (Nat × Text) :=
  match t with
  | a :: b :: r =>
    if !Text.isDigit a then none
    else if Text.isDigit b then some (Text.digitValue a * 10 + Text.digitValue b, r)
    else some (Text.digitValue a, b :: r)
  | [a] => if Text.isDigit a then some (Text.digitValue a, []) else none
  | [] => none

/-- Takes one or two digits that write a number in a range. -/
def takePart? (low high : Nat) (t : Text) : Option (Nat × Text) :=
  (takeTwoDigits? t).filter fun (n, _) => low ≤ n && n ≤ high

/-- Takes a given byte. -/
def takeByte? (b : Char) (t : Text) : Option Text :=
  match t with
  | c :: r => if c = Text.byte b then some r else none
  | [] => none

/-- The number of days of a month. -/
def daysIn (year month : Nat) : Nat :=
  if month = 2 then
    if year % 4 = 0 && (year % 100 ≠ 0 || year % 400 = 0) then 29 else 28
  else if month = 4 || month = 6 || month = 9 || month = 11 then 30
  else 31

namespace Timestamp

/-- Takes a date: a year of four digits, a month and a day. -/
def takeDate? (t : Text) : Option (Timestamp × Text) := do
  let year := t.take 4
  if year.length < 4 || !year.all Text.isDigit then none
  let r ← takeByte? '-' (t.drop 4)
  let (month, r) ← takePart? 1 12 r
  let r ← takeByte? '-' r
  let (day, r) ← takePart? 1 31 r
  let year := Text.digitsValue year
  if day ≤ daysIn year month then some ({ year, month, day }, r) else none

/-- Takes a fraction of a second, if there is one, in nanoseconds. -/
def takeFraction (t : Text) : Nat × Text :=
  match t with
  | p :: d :: r =>
    if (p = Text.byte '.' || p = Text.byte ',') && Text.isDigit d then
      let digits := d :: r.takeWhile Text.isDigit
      let shown := digits.take 9
      (Text.digitsValue shown * Nat.pow 10 (9 - shown.length), r.dropWhile Text.isDigit)
    else (0, t)
  | _ => (0, t)

/-- Takes a time of day. -/
def takeTime? (date : Timestamp) (t : Text) : Option (Timestamp × Text) := do
  let (hour, r) ← takePart? 0 23 t
  let r ← takeByte? ':' r
  let (minute, r) ← takePart? 0 59 r
  let r ← takeByte? ':' r
  let (second, r) ← takePart? 0 59 r
  let (nanosecond, r) := takeFraction r
  return ({ date with hour, minute, second, nanosecond }, r)

/-- The zone that a text is: `Z`, or hours and minutes with a sign. -/
def zone? (t : Text) : Option Zone :=
  match t with
  | [z] => if z = Text.byte 'Z' then some .utc else none
  | [s, a, b, c, d, e] =>
    let hours := Text.digitsValue [a, b]
    let minutes := Text.digitsValue [d, e]
    if (s = Text.byte '+' || s = Text.byte '-') && c = Text.byte ':' &&
        [a, b, d, e].all Text.isDigit && hours ≤ 24 && minutes ≤ 60 then
      let difference : Int := hours * 60 + minutes
      if difference = 0 then some .here
      else some (.offset (if s = Text.byte '-' then -difference else difference))
    else none
  | _ => none

/-- The point in time that a text writes. -/
def read? (t : Text) : Option Timestamp := do
  match ← takeDate? t with
  | (date, []) => return date
  | (date, s :: r) =>
    if s = Text.byte 'T' || s = Text.byte 't' then
      let (time, r) ← takeTime? date r
      return { time with zone := ← zone? r }
    else if s = Text.byte ' ' then
      match ← takeTime? date (r.dropWhile (· = Text.byte ' ')) with
      | (time, []) => return time
      | _ => none
    else none

/-- Whether two points in time are the same key. Two zones with a difference are only known to be the
same if it is of whole hours, from twelve behind to fourteen ahead. -/
def sameKey (a b : Timestamp) : Bool :=
  a == b &&
    match a.zone with
    | .utc | .here => true
    | .offset minutes => minutes % 60 == 0 && -12 ≤ minutes / 60 && minutes / 60 ≤ 14

/-- The names of the months. -/
def monthNames : List String :=
  ["January", "February", "March", "April", "May", "June", "July", "August", "September",
    "October", "November", "December"]

/-- A point in time with all its parts. -/
def literal (t : Timestamp) : Text :=
  let month : Text := monthNames.getD (t.month - 1) ""
  let zone : Text := match t.zone with
    | .utc => "time.UTC"
    | .here => "time.Local"
    | .offset _ => "time.Location(\"\")"
  let parts := [t.day, t.hour, t.minute, t.second, t.nanosecond].map Text.ofNat
  "time.Date(" ++ Text.ofNat t.year ++ ", time." ++ month ++ ", " ++ Text.join ", " parts ++ ", " ++
    zone ++ ")"

end Timestamp

end TinyLang.Yaml
