import ModuleMerge.Json.Reader

/-!
# Passing over JSON values

Values that nobody asks for are passed over. Their text has to be JSON, but numbers of any size
and halves of characters are let through.

* `skipString` and `skipNumber` pass over a string and a number.
* `skipValue` passes over a value of any kind.
-/

set_option autoImplicit false

namespace ModuleMerge
namespace Json
namespace Reader

/-! ## Strings and numbers -/

/-- What is left after a string whose opening quote was read. -/
def skipStringChars : List Char → Except Fault (List Char)
  | [] => .error (.here .endInString [])
  | '"' :: rest => .ok rest
  | ['\\'] => .error (.here .endInString [])
  | '\\' :: 'u' :: a :: b :: c :: d :: rest =>
    match hexValues? a b c d with
    | none => .error (hexFault (a :: b :: c :: d :: rest))
    | some _ => skipStringChars rest
  | '\\' :: 'u' :: rest => .error (hexFault rest)
  | '\\' :: c :: rest =>
    match simpleEscape? c with
    | some _ => skipStringChars rest
    | none => .error (.next .badEscape (c :: rest))
  | c :: rest =>
    if c.toNat < 0x20 then .error (.here .controlCharacter (c :: rest))
    else skipStringChars rest

/-- Passes over a string after its opening quote. -/
def skipString : Reader Unit :=
  fun rest => (skipStringChars rest).map fun left => ((), left)

/-- Passes over an exponent after its letter. -/
def skipExponent : Reader Unit := do
  match ← rest with
  | '+' :: _ | '-' :: _ => advance
  | _ => pure ()
  let read ← digits
  if read.isEmpty then failNext .badNumber else pure ()

/-- Passes over an exponent, if there is one. -/
def skipExponent? : Reader Unit := do
  match ← rest with
  | 'e' :: _ | 'E' :: _ => do
    advance
    skipExponent
  | _ => pure ()

/-- Passes over the whole part of a number: a zero alone, or digits. -/
def skipWhole : Reader Unit := do
  match ← rest with
  | '0' :: c :: _ => do
    advance
    if c.isDigit then failNext .badNumber else pure ()
  | _ => do
    let read ← digits
    if read.isEmpty then failNext .badNumber else pure ()

/-- Passes over a fraction and an exponent, if there are any. -/
def skipFraction? : Reader Unit := do
  match ← rest with
  | '.' :: _ => do
    advance
    let read ← digits
    if read.isEmpty then failNext .badNumber else skipExponent?
  | _ => skipExponent?

/-- Passes over a number after its sign. -/
def skipNumber : Reader Unit := do
  skipWhole
  skipFraction?

/-! ## Values -/

/-- What a value to pass over starts with. -/
inductive Start where
  /-- A value that is passed over already. -/
  | done
  | array
  | object

/-- Passes over a value that is no array or object, and over the bracket that opens one. -/
def skipStart : Reader Start := do
  match ← peek .endInValue with
  | 'n' => do advance; word ['u', 'l', 'l']; pure .done
  | 't' => do advance; word ['r', 'u', 'e']; pure .done
  | 'f' => do advance; word ['a', 'l', 's', 'e']; pure .done
  | '-' => do advance; skipNumber; pure .done
  | '"' => do advance; skipString; pure .done
  | '[' => do advance; pure .array
  | '\x7b' => do advance; pure .object
  | c =>
    if c.isDigit then do
      skipNumber
      pure .done
    else
      failNext .noValue

/-- Passes over a key and the colon after it. -/
def skipKey : Reader Unit := do
  match ← peek .endInObject with
  | '"' => advance
  | _ => failNext .keyNotString
  skipString
  match ← peek .endInObject with
  | ':' => advance
  | _ => failNext .noColon

mutual

/-- Passes over a value. No reader is called more often than there are characters, so `fuel` above
their number is never used up. -/
def skipValueWithin : Nat → Reader Unit
  | 0 => failHere .noValue
  | fuel + 1 => do
    match ← skipStart with
    | .done => pure ()
    | .array => do
      match ← peek .endInList with
      | ']' => advance
      | _ => skipItemsWithin fuel
    | .object => do
      match ← peek .endInObject with
      | '\x7d' => advance
      | _ => skipMembersWithin fuel

/-- Passes over the items of an array and its closing bracket. -/
def skipItemsWithin : Nat → Reader Unit
  | 0 => failHere .noValue
  | fuel + 1 => do
    skipValueWithin fuel
    match ← peek .endInList with
    | ',' => do
      advance
      skipItemsWithin fuel
    | ']' => advance
    | _ => failNext .noListComma

/-- Passes over the members of an object and its closing brace. -/
def skipMembersWithin : Nat → Reader Unit
  | 0 => failHere .noValue
  | fuel + 1 => do
    skipKey
    skipValueWithin fuel
    match ← peek .endInObject with
    | ',' => do
      advance
      skipMembersWithin fuel
    | '\x7d' => advance
    | _ => failNext .noObjectComma

end

/-- Passes over a value of any kind. -/
def skipValue : Reader Unit := do
  skipValueWithin (2 * (← rest).length + 1)

end Reader
end Json
end ModuleMerge
