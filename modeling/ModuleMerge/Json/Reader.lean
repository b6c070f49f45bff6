import ModuleMerge.Json.Fault

/-!
# Reading JSON text

Readers take what is left of a text and give a value with what is left after it, or the first
fault.

* `Reader` is the type of readers; `peek`, `skipBlank` and `word` are the smallest ones.
* `string` reads what follows an opening quote.
* `number` reads what follows a minus sign, or a number without one. Whole numbers of 64 bits are
  exact, all others are floating-point numbers.
* `mismatch` reads a value of any kind only to say what was found in place of what was wanted.
-/

set_option autoImplicit false

namespace ModuleMerge
namespace Json

/-- A reader of a text, given as its characters. -/
abbrev Reader (α : Type) := StateT (List Char) (Except Fault) α

namespace Reader

/-- Stops with a problem after everything that was read. -/
def failHere {α : Type} (problem : Problem) : Reader α :=
  fun rest => .error (.here problem rest)

/-- Stops with a problem at the next byte. -/
def failNext {α : Type} (problem : Problem) : Reader α :=
  fun rest => .error (.next problem rest)

/-- What is left of the text. -/
def rest : Reader (List Char) :=
  fun rest => .ok (rest, rest)

/-- Passes over one character. -/
def advance : Reader Unit :=
  fun rest => .ok ((), rest.tail)

/-- The blanks of JSON. -/
def isBlank (c : Char) : Bool :=
  c = ' ' || c = '\n' || c = '\t' || c = '\r'

/-- Passes over blanks. -/
def skipBlank : Reader Unit :=
  fun rest => .ok ((), rest.dropWhile isBlank)

/-- The next character after blanks, which is not passed over; stops if there is none. -/
def peek (atEnd : Problem) : Reader Char := do
  skipBlank
  match ← rest with
  | [] => failHere atEnd
  | c :: _ => pure c

/-! ## Fixed words -/

/-- Reads the characters of a fixed word. -/
def word : List Char → Reader Unit
  | [] => pure ()
  | c :: cs => do
    match ← rest with
    | [] => failHere .endInValue
    | d :: _ =>
      if d = c then
        advance
        word cs
      else
        failNext .noWord

/-! ## Strings -/

/-- The value of a hexadecimal digit in either case. -/
def hexValue? (c : Char) : Option Nat :=
  if '0' ≤ c ∧ c ≤ '9' then some (c.toNat - '0'.toNat)
  else if 'a' ≤ c ∧ c ≤ 'f' then some (c.toNat - 'a'.toNat + 10)
  else if 'A' ≤ c ∧ c ≤ 'F' then some (c.toNat - 'A'.toNat + 10)
  else none

/-- The value of four hexadecimal digits. -/
def hexValues? (a b c d : Char) : Option Nat := do
  let a ← hexValue? a
  let b ← hexValue? b
  let c ← hexValue? c
  let d ← hexValue? d
  pure (((a * 16 + b) * 16 + c) * 16 + d)

/-- The fault of four bytes that are no hexadecimal digits: after them, or at the end of the text
if there are fewer. -/
def hexFault (rest : List Char) : Fault :=
  if Text.byteLength rest < 4 then ⟨.endInString, 0⟩
  else ⟨.badEscape, Text.byteLength rest - 4⟩

/-- The first half of a character beyond U+FFFF. -/
def isLeading (n : Nat) : Bool :=
  0xD800 ≤ n && n ≤ 0xDBFF

/-- The second half of a character beyond U+FFFF. -/
def isTrailing (n : Nat) : Bool :=
  0xDC00 ≤ n && n ≤ 0xDFFF

/-- The character of two halves. -/
def joinHalves (high low : Nat) : Char :=
  Char.ofNat (0x10000 + (high - 0xD800) * 0x400 + (low - 0xDC00))

/-- The character that a letter after a backslash stands for. -/
def simpleEscape? (c : Char) : Option Char :=
  match c with
  | '"' => some '"'
  | '\\' => some '\\'
  | '/' => some '/'
  | 'b' => some '\x08'
  | 'f' => some '\x0c'
  | 'n' => some '\n'
  | 'r' => some '\r'
  | 't' => some '\t'
  | _ => none

/-- Puts a character before the string that is read after it. -/
def consTo (c : Char) (read : Except Fault (List Char × List Char)) :
    Except Fault (List Char × List Char) :=
  read.map fun r => (c :: r.1, r.2)

/-- Reads the characters of a string up to its closing quote. -/
def stringChars : List Char → Except Fault (List Char × List Char)
  | [] => .error (.here .endInString [])
  | '"' :: rest => .ok ([], rest)
  | ['\\'] => .error (.here .endInString [])
  | '\\' :: 'u' :: a :: b :: c :: d :: rest =>
    match hexValues? a b c d with
    | none => .error (hexFault (a :: b :: c :: d :: rest))
    | some n =>
      if isTrailing n then .error (.here .loneSurrogate rest)
      else if isLeading n then
        match rest with
        | '\\' :: 'u' :: a :: b :: c :: d :: rest =>
          match hexValues? a b c d with
          | none => .error (hexFault (a :: b :: c :: d :: rest))
          | some m =>
            if isTrailing m then consTo (joinHalves n m) (stringChars rest)
            else .error (.here .loneSurrogate rest)
        | '\\' :: 'u' :: rest => .error (hexFault rest)
        | [] => .error (.here .endInString [])
        | ['\\'] => .error (.here .endInString [])
        | '\\' :: rest => .error (.next .endOfEscape rest)
        | rest => .error (.next .endOfEscape rest)
      else consTo (Char.ofNat n) (stringChars rest)
  | '\\' :: 'u' :: rest => .error (hexFault rest)
  | '\\' :: c :: rest =>
    match simpleEscape? c with
    | some d => consTo d (stringChars rest)
    | none => .error (.next .badEscape (c :: rest))
  | c :: rest =>
    if c.toNat < 0x20 then .error (.next .controlCharacter (c :: rest))
    else consTo c (stringChars rest)

/-- Reads a string after its opening quote. -/
def string : Reader String :=
  fun rest => (stringChars rest).map fun r => (String.ofList r.1, r.2)

/-! ## Numbers -/

/-- A number as it is read. -/
inductive Number where
  /-- A whole number that 64 bits hold. -/
  | integer (n : Int)
  /-- Any other number, and minus zero. -/
  | float (x : Float)

/-- What a number is shown as. -/
def Number.found : Number → Found
  | integer n => .integer n
  | float x => .float x

/-- The value of a decimal digit. -/
def digitValue (c : Char) : Nat :=
  c.toNat - '0'.toNat

/-- The number that digits add to a number, as long as it stays within a bound, and the digits
from the first that would lead beyond it. -/
def takeDigits (bound : Nat) (n : Nat) : List Char → Nat × List Char
  | [] => (n, [])
  | c :: cs =>
    if 10 * n + digitValue c ≤ bound then takeDigits bound (10 * n + digitValue c) cs
    else (n, c :: cs)

/-- Passes over decimal digits and gives them. -/
def digits : Reader (List Char) :=
  fun rest => .ok (rest.takeWhile Char.isDigit, rest.dropWhile Char.isDigit)

/-- A significand times a power of ten, in steps of the largest power there is; nothing if it is
too large for a floating-point number. -/
def scaled : Nat → Float → Int → Option Float
  | 0, x, _ => some x
  | steps + 1, x, exponent =>
    if exponent.natAbs ≤ 308 then
      let power := Float.ofScientific 1 false exponent.natAbs
      if 0 ≤ exponent then
        let y := x * power
        if y.isInf then none else some y
      else
        some (x / power)
    else if x == 0 then some x
    else if 0 ≤ exponent then none
    else scaled steps (x / Float.ofScientific 1 false 308) (exponent + 308)

/-- The floating-point number of a sign, a significand and a power of ten. -/
def floatOf (negative : Bool) (significand : Nat) (exponent : Int) : Reader Number :=
  match scaled (exponent.natAbs / 308 + 1) (Float.ofNat significand) exponent with
  | some x => pure (.float (if negative then -x else x))
  | none => failHere .hugeNumber

/-- Whether an exponent is below zero; passes over its sign. -/
def exponentSign : Reader Bool := do
  match ← rest with
  | '+' :: _ => do advance; pure false
  | '-' :: _ => do advance; pure true
  | _ => pure false

/-- Reads a number after the sign of its exponent. -/
def exponentDigits (negative : Bool) (significand : Nat) (exponent : Int) (below : Bool) :
    Reader Number := do
  match ← rest with
  | [] => failHere .endInValue
  | c :: _ =>
    if c.isDigit then
      let after := takeDigits 0x7FFFFFFF 0 (← digits)
      match after.2 with
      | [] =>
        floatOf negative significand (exponent + (if below then -(after.1 : Int) else after.1))
      | _ :: unread =>
        if significand ≠ 0 ∧ !below then
          fun rest => .error (.here .hugeNumber (unread ++ rest))
        else
          pure (.float (if negative then -0 else 0))
    else
      failNext .badNumber

/-- Reads a number after the letter of its exponent. -/
def exponentPart (negative : Bool) (significand : Nat) (exponent : Int) : Reader Number := do
  let below ← exponentSign
  exponentDigits negative significand exponent below

/-- Reads a number after its point. -/
def fractionPart (negative : Bool) (significand : Nat) (exponent : Int) : Reader Number := do
  let read ← digits
  match read, ← rest with
  | [], [] => failHere .endInValue
  | [], _ :: _ => failNext .badNumber
  | read, left =>
    let after := takeDigits 0xFFFFFFFFFFFFFFFF significand read
    let exponent := exponent - ((read.length : Int) - after.2.length)
    match left with
    | 'e' :: _ | 'E' :: _ => do
      advance
      exponentPart negative after.1 exponent
    | _ => floatOf negative after.1 exponent

/-- A whole number with a sign, or the floating-point number that it is too large for. -/
def wholeNumber (negative : Bool) (n : Nat) : Number :=
  if !negative then .integer n
  else if n = 0 ∨ 0x8000000000000000 < n then .float (-(Float.ofNat n))
  else .integer (-(n : Int))

/-- Reads a number after its whole part: the number that its digits make as far as 64 bits hold it,
and the digits beyond. -/
def afterWhole (negative : Bool) (whole : Nat × List Char) : Reader Number := do
  match ← rest with
  | '.' :: _ => do
    advance
    fractionPart negative whole.1 whole.2.length
  | 'e' :: _ | 'E' :: _ => do
    advance
    exponentPart negative whole.1 whole.2.length
  | _ =>
    if whole.2.isEmpty then pure (wholeNumber negative whole.1)
    else floatOf negative whole.1 whole.2.length

/-- Reads a number after its sign. -/
def number (negative : Bool) : Reader Number := do
  match ← rest with
  | [] => failHere .endInValue
  | c :: cs =>
    if !c.isDigit then
      failNext .badNumber
    else if c = '0' ∧ (cs.head?.map Char.isDigit).getD false then
      advance
      failNext .badNumber
    else
      afterWhole negative (takeDigits 0xFFFFFFFFFFFFFFFF 0 (← digits))

/-! ## Values of the wrong kind -/

/-- Stops because a value was found that is not of the wanted kind. Strings, numbers and words are
read first; arrays and objects are not. -/
def mismatch {α : Type} (wanted : String) : Reader α := do
  match ← rest with
  | 'n' :: _ => do
    advance
    word ['u', 'l', 'l']
    failHere (.wrongType .null wanted)
  | 't' :: _ => do
    advance
    word ['r', 'u', 'e']
    failHere (.wrongType (.bool true) wanted)
  | 'f' :: _ => do
    advance
    word ['a', 'l', 's', 'e']
    failHere (.wrongType (.bool false) wanted)
  | '-' :: _ => do
    advance
    let n ← number true
    failHere (.wrongType n.found wanted)
  | '"' :: _ => do
    advance
    let s ← string
    failHere (.wrongType (.text s) wanted)
  | '[' :: _ => failHere (.wrongType .sequence wanted)
  | '\x7b' :: _ => failHere (.wrongType .map wanted)
  | c :: _ =>
    if c.isDigit then do
      let n ← number false
      failHere (.wrongType n.found wanted)
    else
      failNext .noValue
  | [] => failHere .noValue

end Reader

end Json
end ModuleMerge
