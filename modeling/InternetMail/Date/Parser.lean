import InternetMail.Date.Basic
import InternetMail.Notice

/-!
# Reading dates

Mail writes dates in words and numbers, `Tue, 1 Jul 2003 10:52:37 +0200`, with the weekday and the
seconds left out at will, years in two or three digits in old mail, and zones by letters.
`Date.parse` reads such a date. Each part is checked when it is read; whether the parts make up a
day that there is, is checked at the end.
-/

namespace InternetMail

/-- Why a text is not a date. -/
inductive DateFault
  /-- A part, or the date, is out of its range. -/
  | outOfRange
  /-- The weekday is not that of the day, or the clock shows what no moment has. -/
  | impossible
  /-- A part is not of its form. -/
  | invalid
  /-- The text ends too soon. -/
  | tooShort
  /-- Something follows the date. -/
  | tooLong
  deriving DecidableEq, Repr

/-- The fault in words. -/
def DateFault.message : DateFault → String
  | .outOfRange => "input is out of range"
  | .impossible => "no possible date and time matching input"
  | .invalid => "input contains invalid characters"
  | .tooShort => "premature end of input"
  | .tooLong => "trailing input"

namespace Date

/-- Takes a part of a date off the front of a text. -/
abbrev Step (α : Type) := Text → Except DateFault (α × Text)

/-- Takes off a number of at least `least` digits, and at most `most` if that is said. -/
def number (least : Nat) (most : Option Nat) : Step Nat := fun t ↦
  let digits := ((most.map t.take).getD t).takeWhile Char.isDigit
  if Text.utf8Size t < least then .error .tooShort
  else if digits.length < least then .error .invalid
  else
    let n := digits.foldl (fun n d ↦ n * 10 + (d.toNat - 0x30)) 0
    if n < 0x8000000000000000 then .ok (n, t.drop digits.length) else .error .outOfRange

/-- Takes off a number that has to lie in a range. -/
def numberIn (least : Nat) (most : Option Nat) (low high : Nat) : Step Nat := fun t ↦ do
  let (n, t) ← number least most t
  if low ≤ n ∧ n ≤ high then .ok (n, t) else .error .outOfRange

/-- Takes off white space, of which there has to be some. -/
def space : Step Unit := fun t ↦
  match t with
  | [] => .error .tooShort
  | c :: rest => if isWhite c then .ok ((), rest.dropWhile isWhite) else .error .invalid

/-- Takes off one character. -/
def char (c : Char) : Step Unit := fun t ↦
  match t with
  | [] => .error .tooShort
  | d :: rest => if d == c then .ok ((), rest) else .error .invalid

/-- Takes off a name of three letters, in any case, and gives its place in a list. -/
def name (names : List String) : Step Nat := fun t ↦
  if Text.utf8Size t < 3 then .error .tooShort
  else
    match names.findIdx? fun n ↦ Text.foldAscii n.toList == Text.foldAscii (t.take 3) with
    | some i => .ok (i, t.drop 3)
    | none => .error .invalid

/-- Takes off a weekday with its comma, if there is one. -/
def weekday? : Step (Option Nat) := fun t ↦
  match name weekdays t with
  | .error _ => .ok (none, t)
  | .ok (w, rest) =>
    match rest with
    | ',' :: rest => .ok (some w, rest)
    | _ => .error .invalid

/-- The year that a number of so many digits means: one of two digits lies between 1950 and 2049,
one of three digits counts from 1900. -/
def fullYear (digits n : Nat) : Nat :=
  if digits = 2 then (if n < 50 then n + 2000 else n + 1900)
  else if digits = 3 then n + 1900
  else n

/-- Takes off a year. -/
def year : Step Nat := fun t ↦ do
  let (n, rest) ← number 2 none t
  let y := fullYear (t.length - rest.length) n
  if y < 0x80000000 then .ok (y, rest) else .error .outOfRange

/-- Takes off the seconds of a time, if a colon says that they follow. -/
def second : Step Nat := fun t ↦
  match t.dropWhile isWhite with
  | ':' :: rest => numberIn 2 (some 2) 0 60 rest
  | _ => .ok (0, t)

/-! ### Zones -/

/-- The zones that go by a name of more than one letter, with their offset in hours. -/
def namedZones : List (String × Int) := [
  ("gmt", 0), ("ut", 0), ("edt", -4), ("est", -5), ("cdt", -5), ("cst", -6), ("mdt", -6),
  ("mst", -7), ("pdt", -7), ("pst", -8)]

/-- The offset of a zone in seconds, by its name. Military zones tell nothing reliable and are taken
for universal time; there is no zone `J`. -/
def zoneOffset? (zone : Text) : Option Int :=
  match zone.foldAscii with
  | [c] => if c == 'j' then none else some 0
  | zone => ((namedZones.find? fun z ↦ z.1.toList == zone).map Prod.snd).map (· * 3600)

/-- Takes off two digits of an offset; the first must not be greater than `most`. -/
def twoDigits (most : Nat) : Step Nat := fun t ↦
  if Text.utf8Size t < 2 then .error .tooShort
  else
    match t with
    | a :: b :: rest =>
      if a.isDigit && b.isDigit then
        if a.toNat - 0x30 ≤ most then .ok ((a.toNat - 0x30) * 10 + (b.toNat - 0x30), rest)
        else .error .outOfRange
      else .error .invalid
    | _ => .error .invalid

/-- Takes off an offset of hours and minutes with a sign. -/
def signedOffset : Step Int := fun t ↦
  match t with
  | [] => .error .tooShort
  | c :: rest =>
    if c == '+' || c == '-' then do
      let (hours, rest) ← twoDigits 9 rest
      let (minutes, rest) ← twoDigits 5 rest
      let seconds : Int := hours * 3600 + minutes * 60
      return (if c == '-' then -seconds else seconds, rest)
    else .error .invalid

/-- Takes off a zone, by name or by offset. -/
def zone : Step Int := fun t ↦
  match t.takeWhile Char.isAlpha with
  | [] => signedOffset t
  | letters =>
    match zoneOffset? letters with
    | some offset => .ok (offset, t.drop letters.length)
    | none => .error .invalid

/-! ### Comments -/

/-- What follows a comment, from within it: `depth` parentheses are open besides the outer one, and
`escaped` tells whether a backslash stands before. -/
def afterComment? (depth : Nat) (escaped : Bool) : Text → Option Text
  | [] => none
  | c :: t =>
    if escaped then afterComment? depth false t
    else if c == '\\' then afterComment? depth true t
    else if c == '(' then afterComment? (depth + 1) false t
    else if c == ')' then
      match depth with
      | 0 => some t
      | depth + 1 => afterComment? depth false t
    else afterComment? depth false t

theorem length_lt_of_afterComment {depth : Nat} {escaped : Bool} {t r : Text}
    (h : afterComment? depth escaped t = some r) : r.length < t.length := by
  fun_induction afterComment? depth escaped t <;> grind

/-- The text without the comments at its front and the white space before them. -/
def dropComments (t : Text) : Text :=
  match h : t.dropWhile isWhite with
  | '(' :: rest =>
    match h' : afterComment? 0 false rest with
    | some after =>
      have : after.length < t.length := by
        have h₁ := (List.dropWhile_sublist isWhite (l := t)).length_le
        have h₂ := length_lt_of_afterComment h'
        rw [h, List.length_cons] at h₁
        omega
      dropComments after
    | none => t
  | _ => t
termination_by t.length

/-! ### The whole date -/

/-- What the parts of a date say. -/
structure Parts where
  weekday : Option Nat
  day : CalendarDay
  secondOfDay : Nat
  isLeapSecond : Bool
  offset : Int

/-- Takes off the parts of a date. -/
def parts : Step Parts := fun t ↦ do
  let (weekday, t) ← weekday? (t.dropWhile isWhite)
  let (day, t) ← numberIn 1 (some 2) 1 31 (t.dropWhile isWhite)
  let (_, t) ← space t
  let (month, t) ← name months t
  let (_, t) ← space t
  let (year, t) ← year t
  let (_, t) ← space t
  let (hour, t) ← numberIn 2 (some 2) 0 23 t
  let (_, t) ← char ':' (t.dropWhile isWhite)
  let (minute, t) ← numberIn 2 (some 2) 0 59 (t.dropWhile isWhite)
  let (second, t) ← second t
  let (_, t) ← space t
  let (offset, t) ← zone t
  let isLeapSecond := second == 60
  return (
    { weekday, day := ⟨year, month + 1, day⟩, isLeapSecond, offset
      secondOfDay := hour * 3600 + minute * 60 + (if isLeapSecond then 59 else second) },
    dropComments t)

/-- The last year of the calendar. -/
def lastYear : Int := 262142

/-- The first second after the last year, in universal time. -/
def endOfTime : Int := (CalendarDay.number ⟨lastYear + 1, 1, 1⟩) * 86400

/-- The date that some parts make up. -/
def ofParts (p : Parts) : Except DateFault Date :=
  let number := p.day.number
  if lastYear < p.day.year || !p.day.isValid then .error .outOfRange
  else if p.weekday.any (· != CalendarDay.weekdayOf number) then .error .impossible
  else if 86400 ≤ p.offset.natAbs then .error .outOfRange
  else
    let seconds := number * 86400 + p.secondOfDay - p.offset
    if endOfTime ≤ seconds then .error .impossible
    else .ok ⟨seconds, if p.isLeapSecond then 1000000000 else 0, p.offset⟩

/-- The date that a text writes. -/
def parse (t : Text) : Except DateFault Date := do
  let (p, rest) ← parts t
  if !rest.isEmpty then .error .tooLong else ofParts p

end Date

/-- A text that is no date. -/
def Error.ofDate (fault : DateFault) : Error :=
  ofCause fault.message .parse

end InternetMail
