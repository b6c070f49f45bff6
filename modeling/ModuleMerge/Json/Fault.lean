import ModuleMerge.Decimal.Shortest
import ModuleMerge.Text.Bytes
import ModuleMerge.Text.Quoted

/-!
# What can be wrong with a JSON text

* `Problem` is what is wrong, either with the JSON itself or with a value where another kind of
  value was asked for; `Problem.message` says it in words.
* `Fault` adds where, counted from the end of the text, as readers only know what is left of it.
* `ReadError` adds the line and the column instead.
-/

set_option autoImplicit false

namespace ModuleMerge
namespace Json

/-- A value that was found where another kind of value was asked for. -/
inductive Found where
  | null
  | bool (b : Bool)
  | integer (n : Int)
  | float (x : Float)
  | text (s : String)
  | sequence
  | map

/-- What is wrong with a JSON text. -/
inductive Problem where
  /-- The text ends where a value should start, or inside one of the fixed words. -/
  | endInValue
  | endInList
  | endInObject
  | endInString
  | noColon
  | noListComma
  | noObjectComma
  | noWord
  | noValue
  | badEscape
  | badNumber
  | hugeNumber
  | loneSurrogate
  | endOfEscape
  | controlCharacter
  | keyNotString
  | trailingComma
  | trailingCharacters
  /-- A value of another kind than the one asked for. -/
  | wrongType (found : Found) (wanted : String)
  /-- A value of the right kind that is out of bounds. -/
  | wrongValue (found : Found) (wanted : String)
  | unknownVariant (name : String) (known : List String)
  | missingField (name : String)
  | duplicateField (name : String)
  | wrongLength (length : Nat) (wanted : String)
  /-- A text that does not have the form asked for. -/
  | wrongText (reason : String)

/-- How fractions are shown: with a point up to sixteen digits before it and five zeros after it,
else with a signed exponent. -/
def foundFloatLayout : Decimal.FloatLayout where
  positionalFrom := -5
  positionalTo := 15
  wholeEnd := ".0"
  positiveMark := "e+"
  negativeMark := "e-"
  exponentDigits := 1

namespace Found

/-- A found value in words. -/
def message : Found → String
  | null => "null"
  | bool true => "boolean `true`"
  | bool false => "boolean `false`"
  | integer n => "integer `" ++ toString n ++ "`"
  | float x => "floating point `" ++ foundFloatLayout.text x ++ "`"
  | text s => "string " ++ Text.quote s
  | sequence => "sequence"
  | map => "map"

end Found

namespace Problem

/-- The known variants of an enumeration in words. -/
def expectedVariants (known : List String) : String :=
  match known.map fun name => "`" ++ name ++ "`" with
  | [] => "there are no variants"
  | [a] => "expected " ++ a
  | [a, b] => "expected " ++ a ++ " or " ++ b
  | names => "expected one of " ++ String.intercalate ", " names

/-- A problem in words. -/
def message : Problem → String
  | endInValue => "EOF while parsing a value"
  | endInList => "EOF while parsing a list"
  | endInObject => "EOF while parsing an object"
  | endInString => "EOF while parsing a string"
  | noColon => "expected `:`"
  | noListComma => "expected `,` or `]`"
  | noObjectComma => "expected `,` or `\x7d`"
  | noWord => "expected ident"
  | noValue => "expected value"
  | badEscape => "invalid escape"
  | badNumber => "invalid number"
  | hugeNumber => "number out of range"
  | loneSurrogate => "lone leading surrogate in hex escape"
  | endOfEscape => "unexpected end of hex escape"
  | controlCharacter => "control character (\\u0000-\\u001F) found while parsing a string"
  | keyNotString => "key must be a string"
  | trailingComma => "trailing comma"
  | trailingCharacters => "trailing characters"
  | wrongType found wanted => "invalid type: " ++ found.message ++ ", expected " ++ wanted
  | wrongValue found wanted => "invalid value: " ++ found.message ++ ", expected " ++ wanted
  | unknownVariant name known => "unknown variant `" ++ name ++ "`, " ++ expectedVariants known
  | missingField name => "missing field `" ++ name ++ "`"
  | duplicateField name => "duplicate field `" ++ name ++ "`"
  | wrongLength length wanted => "invalid length " ++ toString length ++ ", expected " ++ wanted
  | wrongText reason => reason

end Problem

/-! ## Where -/

/-- A problem and the number of bytes of the text from there on. -/
structure Fault where
  problem : Problem
  left : Nat

namespace Fault

/-- A problem after everything that was read. -/
def here (problem : Problem) (rest : List Char) : Fault :=
  ⟨problem, Text.byteLength rest⟩

/-- A problem with the next byte, which counts as read. -/
def next (problem : Problem) (rest : List Char) : Fault :=
  ⟨problem, Text.byteLength rest - 1⟩

end Fault

/-- A problem with the line and the column where it was found. The column counts the bytes of the
line that were read, so it can be zero. -/
structure ReadError where
  problem : Problem
  line : Nat
  column : Nat

namespace ReadError

/-- The place of a fault in a text. -/
def ofFault (text : List Char) (fault : Fault) : ReadError :=
  let position := Text.Position.ofOffset text (Text.byteLength text - fault.left)
  ⟨fault.problem, position.row + 1, position.column⟩

/-- An error in words. -/
def message (e : ReadError) : String :=
  e.problem.message ++ " at line " ++ toString e.line ++ " column " ++ toString e.column

end ReadError

end Json
end ModuleMerge
