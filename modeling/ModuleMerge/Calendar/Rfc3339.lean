import ModuleMerge.Calendar.Instant
import ModuleMerge.Text.Blank
import ModuleMerge.Text.Bytes
import ModuleMerge.Text.Parts

/-!
# The text of instants

Instants are written in the form of RFC 3339, as in `2024-01-02T03:04:05.678Z`. Reading allows
more: blanks between the parts, single digits, years with a sign, other offsets from universal
time and other separators between hours and minutes of an offset.

* `Instant.text` writes an instant in universal time.
* `TimeReader` is the type of readers of the parts of such a text; `number`, `date`, `clock` and
  `offset` are the readers of the parts.
* `Instant.ofText` reads an instant.
-/

set_option autoImplicit false

namespace ModuleMerge
namespace Calendar

/-! ## Writing -/

/-- The last `width` decimal digits of a number. -/
def decimals (width n : Nat) : List Char :=
  Text.fixedDigits 10 width n

/-- A number of at least four digits. -/
def fourDigits (n : Nat) : List Char :=
  if n < 10000 then decimals 4 n else Nat.toDigits 10 n

/-- A year. It has a sign if it lies before the year 0 or has more than four digits. -/
def yearText : Int → List Char
  | .ofNat n => if n < 10000 then fourDigits n else '+' :: fourDigits n
  | .negSucc n => '-' :: fourDigits (n + 1)

/-- The fraction of a second, with as many digits as it needs out of none, three, six and nine. -/
def fractionText (nano : Nat) : List Char :=
  if nano = 0 then []
  else if nano % 1000000 = 0 then '.' :: decimals 3 (nano / 1000000)
  else if nano % 1000 = 0 then '.' :: decimals 6 (nano / 1000)
  else '.' :: decimals 9 nano

/-- The characters of an instant's text. -/
def Instant.print (t : Instant) : List Char :=
  yearText t.date.year ++ '-' :: decimals 2 t.date.month ++ '-' :: decimals 2 t.date.day
    ++ 'T' :: decimals 2 t.clock.hour.val ++ ':' :: decimals 2 t.clock.minute.val
    ++ ':' :: decimals 2 t.clock.second.val ++ fractionText t.clock.nano.val ++ ['Z']

/-- The text of an instant. -/
def Instant.text (t : Instant) : String :=
  String.ofList t.print

/-! ## Reading -/

/-- What is wrong with a text that should be an instant. -/
inductive TimeFault where
  | outOfRange
  /-- The instant lies after the last one or before the first one that can be named. -/
  | unreachable
  | badCharacter
  | tooShort
  | tooLong
  deriving DecidableEq, Repr

/-- A fault in words. -/
def TimeFault.message : TimeFault → String
  | outOfRange => "input is out of range"
  | unreachable => "no possible date and time matching input"
  | badCharacter => "input contains invalid characters"
  | tooShort => "premature end of input"
  | tooLong => "trailing input"

/-- A reader of a part of a text. -/
abbrev TimeReader (α : Type) := StateT (List Char) (Except TimeFault) α

namespace TimeReader

/-- Stops with a fault. -/
def fail {α : Type} (fault : TimeFault) : TimeReader α :=
  fun _ => .error fault

/-- Passes over blanks. -/
def skipBlank : TimeReader Unit :=
  fun rest => .ok ((), Text.trimStart rest)

/-- The next character, which is passed over. -/
def next : TimeReader Char
  | [] => .error .tooShort
  | c :: rest => .ok (c, rest)

/-- Reads one certain character. -/
def literal (c : Char) : TimeReader Unit := do
  if (← next) = c then pure () else fail .badCharacter

/-! ### Numbers -/

/-- The value of a row of digits. -/
def digitsValue (digits : List Char) : Nat :=
  digits.foldl (fun n c => 10 * n + (c.toNat - '0'.toNat)) 0

/-- Reads the digits that come next, one at least. -/
def digits (atMost : Option Nat) : TimeReader (List Char) := fun rest =>
  match rest with
  | [] => .error .tooShort
  | c :: _ =>
    if c.isDigit then
      let found := (rest.take (atMost.getD rest.length)).takeWhile Char.isDigit
      .ok (found, rest.drop found.length)
    else
      .error .badCharacter

/-- Reads a number of one or two digits after blanks, and checks its bounds. -/
def number (least most : Nat) : TimeReader Nat := do
  skipBlank
  let n := digitsValue (← digits (some 2))
  if least ≤ n ∧ n ≤ most then pure n else fail .outOfRange

/-- The first and the last year that a text can name at all. -/
def yearBounds : Int × Int := (-Nat.pow 2 31, Nat.pow 2 31 - 1)

/-- Reads a year after blanks: up to four digits, or a sign with any number of them. -/
def year : TimeReader Int := do
  skipBlank
  let y ← fun rest =>
    match rest with
    | '-' :: rest => ((fun ds => -(digitsValue ds : Int)) <$> digits none) rest
    | '+' :: rest => ((fun ds => (digitsValue ds : Int)) <$> digits none) rest
    | _ => ((fun ds => (digitsValue ds : Int)) <$> digits (some 4)) rest
  if yearBounds.1 ≤ y ∧ y ≤ yearBounds.2 then pure y else fail .outOfRange

/-! ### Parts -/

/-- Reads the numbers of a date. Whether there is such a day is not asked here. -/
def date : TimeReader (Int × Nat × Nat) := do
  let y ← year
  skipBlank
  literal '-'
  let m ← number 1 12
  skipBlank
  literal '-'
  let d ← number 1 31
  pure (y, m, d)

/-- A number as one of those up to `most`, which starts over behind that. -/
def wrapped (most n : Nat) : Fin (most + 1) :=
  ⟨n % (most + 1), Nat.mod_lt n most.succ_pos⟩

/-- Reads the fraction of a second. Digits after the ninth are passed over. -/
def fraction : TimeReader (Fin 1000000000) := fun rest =>
  match rest with
  | '.' :: rest => do
    let (found, rest) ← digits (some 9) rest
    let nano := digitsValue found * Nat.pow 10 (9 - found.length)
    .ok (wrapped 999999999 nano, rest.dropWhile Char.isDigit)
  | _ => .ok (wrapped 999999999 0, rest)

/-- Reads a time of day. -/
def clock : TimeReader Clock := do
  let hour ← number 0 23
  skipBlank
  literal ':'
  let minute ← number 0 59
  skipBlank
  literal ':'
  let second ← number 0 60
  let nano ← fraction
  skipBlank
  pure ⟨wrapped 23 hour, wrapped 59 minute, wrapped 60 second, nano⟩

/-- Reads what stands between a date and a time of day. -/
def separator : TimeReader Unit := do
  let c ← next
  if c = 't' || c = 'T' || c = ' ' then pure () else fail .badCharacter

/-- Reads a number of two digits. A text of fewer than two bytes is too short for it. -/
def twoDigits : TimeReader Nat := fun rest =>
  if Text.byteLength rest < 2 then .error .tooShort
  else
    match rest with
    | a :: b :: rest =>
      if a.isDigit && b.isDigit then .ok (digitsValue [a, b], rest) else .error .badCharacter
    | _ => .error .badCharacter

/-- Reads the sign of an offset: whether it lies behind universal time. -/
def isBehind : TimeReader Bool := do
  match ← next with
  | '+' => pure false
  | '-' | '\u2212' => pure true
  | _ => fail .badCharacter

/-- Reads the hours and minutes of an offset, as minutes. Colons and blanks between them do not
matter. -/
def offsetMinutes : TimeReader Int := do
  let behind ← isBehind
  let hours ← twoDigits
  modify (·.dropWhile fun c => c = ':' || Text.isBlank c)
  let minutes ← twoDigits
  if minutes < 60 then
    let ahead : Int := hours * 60 + minutes
    pure (if behind then -ahead else ahead)
  else
    fail .outOfRange

/-- Reads by how many minutes the time of day runs ahead of universal time. -/
def offset : TimeReader Int := fun rest =>
  match rest with
  | 'Z' :: rest | 'z' :: rest => .ok (0, rest)
  | a :: b :: c :: rest' =>
    if Text.lowerAscii [a, b, c] = ['u', 't', 'c'] then .ok (0, rest') else offsetMinutes rest
  | _ => offsetMinutes rest

/-- Checks that only blanks are left. -/
def finish : TimeReader Unit := do
  skipBlank
  match ← get with
  | [] => pure ()
  | _ :: _ => fail .tooLong

/-! ### Instants -/

/-- The first and the last year with days that can be named. -/
def dayBounds : Int × Int := (-262143, 262142)

/-- Whether a year has days that can be named. -/
def hasDays (year : Int) : Bool :=
  dayBounds.1 ≤ year && year ≤ dayBounds.2

/-- The instant that was read, if there is such a day and the offset is less than one. -/
def assemble (date : Int × Nat × Nat) (clock : Clock) (ahead : Int) :
    Except TimeFault Instant :=
  match Date.ofNumbers? date.1 date.2.1 date.2.2 with
  | none => .error .outOfRange
  | some day =>
    if !hasDays day.year || ahead ≤ -1440 || 1440 ≤ ahead then .error .outOfRange
    else
      let t := Instant.ofLocal day clock ahead
      if hasDays t.date.year then .ok t else .error .unreachable

/-- Reads an instant, which takes the whole text. -/
def instant : TimeReader Instant := do
  let d ← date
  separator
  let c ← clock
  let ahead ← offset
  finish
  liftM (assemble d c ahead)

end TimeReader

/-- The instant that a text names. -/
def Instant.ofText (text : String) : Except TimeFault Instant :=
  match TimeReader.instant.run text.toList with
  | .ok (t, _) => .ok t
  | .error fault => .error fault

end Calendar
end ModuleMerge
