import ModuleMerge.Json.Reader
import ModuleMerge.Json.Value

/-!
# Writing and reading typed values

A codec writes the values of one type as JSON and reads them back. A reader stops at the first
thing in the text that does not fit.

* `Codec` is a writer with a reader, `Codec.decode` reads a whole text, and `Codec.encodeText`
  writes one.
* `Codec.natural32`, `Codec.text`, `Codec.bool`, `Codec.parsed` and `Codec.enumeration` are the
  codecs of single values.
* `Codec.nullable` and `Codec.list` build on another codec.
-/

set_option autoImplicit false

namespace ModuleMerge
namespace Json

/-- A way to write values of a type as JSON and to read them. -/
structure Codec (α : Type) where
  encode : α → Value
  read : Reader α

namespace Codec

open Reader

/-! ## Whole texts -/

/-- Reads a value that takes a whole text, but for blanks. -/
def readAll {α : Type} (codec : Codec α) : Reader α := do
  let a ← codec.read
  skipBlank
  match ← rest with
  | [] => pure a
  | _ :: _ => failNext .trailingCharacters

/-- The value that a text holds. -/
def decode {α : Type} (codec : Codec α) (text : String) : Except ReadError α :=
  match codec.readAll.run text.toList with
  | .ok (a, _) => .ok a
  | .error fault => .error (.ofFault text.toList fault)

/-- The text of a value. -/
def encodeText {α : Type} (codec : Codec α) (style : Style) (a : α) : String :=
  (codec.encode a).render style

/-! ## Single values -/

/-- The least number above those of 32 bits. -/
def bound32 : Nat := Nat.pow 2 32

/-- The number of 32 bits that was read, if it is one. -/
def narrow32 : Number → Reader Nat
  | .integer n =>
    if 0 ≤ n ∧ n.toNat < bound32 then pure n.toNat
    else failHere (.wrongValue (.integer n) "u32")
  | .float x => failHere (.wrongType (.float x) "u32")

/-- Natural numbers of 32 bits. -/
def natural32 : Codec Nat where
  encode := .nat
  read := do
    let c ← peek .endInValue
    if c = '-' then do
      advance
      narrow32 (← number true)
    else if c.isDigit then
      narrow32 (← number false)
    else
      mismatch "u32"

/-- Reads a string; anything else is not the wanted kind of value. -/
def readText (wanted : String) : Reader String := do
  match ← peek .endInValue with
  | '"' => do
    advance
    string
  | _ => mismatch wanted

/-- Strings, under the name that they are asked for by. -/
def textAs (wanted : String) : Codec String where
  encode := .text
  read := readText wanted

/-- Strings. -/
def text : Codec String :=
  textAs "a string"

/-- Values that are written as strings of a form of their own. -/
def parsed {α : Type} (wanted : String) (print : α → String)
    (parse : String → Except String α) : Codec α where
  encode a := .text (print a)
  read := do
    match parse (← readText wanted) with
    | .ok a => pure a
    | .error reason => failHere (.wrongText reason)

/-- Truth values. -/
def bool : Codec Bool where
  encode := .bool
  read := do
    match ← peek .endInValue with
    | 't' => do
      advance
      word ['r', 'u', 'e']
      pure true
    | 'f' => do
      advance
      word ['a', 'l', 's', 'e']
      pure false
    | _ => mismatch "a boolean"

/-! ## Enumerations -/

/-- The case with a name, if there is one. -/
def caseNamed {α : Type} (cases : List α) (name : α → String) (wanted : String) : Reader α :=
  match cases.find? (name · = wanted) with
  | some a => pure a
  | none => failHere (.unknownVariant wanted (cases.map name))

/-- The value `null` after the name of a case. -/
def readUnit : Reader Unit := do
  match ← peek .endInValue with
  | 'n' => do
    advance
    word ['u', 'l', 'l']
  | _ => mismatch "unit"

/-- The case that the key of an object names. -/
def readCaseKey {α : Type} (cases : List α) (name : α → String) : Reader α := do
  match ← peek .endInObject with
  | '"' => do
    advance
    caseNamed cases name (← string)
  | '\x7d' => failNext .noValue
  | _ => failNext .keyNotString

/-- The cases of a type, each written as its name. An object with the name as its only key and
`null` as the value is read as well. -/
def enumeration {α : Type} (cases : List α) (name : α → String) : Codec α where
  encode a := .text (name a)
  read := do
    match ← peek .endInValue with
    | '"' => do
      advance
      caseNamed cases name (← string)
    | '\x7b' => do
      advance
      let a ← readCaseKey cases name
      match ← peek .endInObject with
      | ':' => advance
      | _ => failNext .noColon
      readUnit
      match ← peek .endInObject with
      | '\x7d' => advance
      | _ => failHere .noValue
      pure a
    | _ => failNext .noValue

/-! ## Optional values and lists -/

/-- Optional values; `null` stands for none. -/
def nullable {α : Type} (codec : Codec α) : Codec (Option α) where
  encode
    | some a => codec.encode a
    | none => .null
  read := do
    skipBlank
    match ← rest with
    | 'n' :: _ => do
      advance
      word ['u', 'l', 'l']
      pure none
    | _ => some <$> codec.read

/-- Whether another item of an array follows, after the comma that has to be before it. -/
def anotherItem (isFirst : Bool) : Reader Bool := do
  match ← peek .endInList with
  | ']' => pure false
  | c =>
    if isFirst then pure true
    else if c = ',' then do
      advance
      match ← peek .endInValue with
      | ']' => failNext .trailingComma
      | _ => pure true
    else
      failNext .noListComma

/-- The rest of an array when no more items are asked for: its closing bracket. -/
def endOfArray : Reader Unit := do
  match ← peek .endInList with
  | ']' => advance
  | ',' => do
    advance
    skipBlank
    match ← rest with
    | ']' :: _ => failNext .trailingComma
    | _ => failNext .trailingCharacters
  | _ => failNext .trailingCharacters

/-- The items of an array. Each takes a character at least, so `fuel` above the number of
characters is never used up. -/
def readItems {α : Type} (item : Reader α) : Nat → Bool → Reader (List α)
  | 0, _ => failHere .noValue
  | fuel + 1, isFirst => do
    if ← anotherItem isFirst then
      let a ← item
      let as ← readItems item fuel false
      pure (a :: as)
    else
      pure []

/-- Lists. -/
def list {α : Type} (codec : Codec α) : Codec (List α) where
  encode as := .array (as.map codec.encode)
  read := do
    match ← peek .endInValue with
    | '[' => do
      advance
      let as ← readItems codec.read ((← rest).length + 1) true
      endOfArray
      pure as
    | _ => mismatch "a sequence"

/-- The values of a type by way of another one that holds the same. -/
def via {α β : Type} (codec : Codec β) (split : α → β) (join : β → α) : Codec α where
  encode a := codec.encode (split a)
  read := join <$> codec.read

end Codec

end Json
end ModuleMerge
