import ModuleMerge.Text.Parts

/-!
# JSON values and their text

The values that the library writes as JSON, in two styles.

* `Value` is a JSON value. Its numbers are natural numbers, as nothing else is written.
* `escape` writes the characters of a string; `Value.print` writes a value, without blanks or
  indented by two spaces a level.
-/

set_option autoImplicit false

namespace ModuleMerge
namespace Json

mutual

/-- A JSON value. -/
inductive Value where
  | null
  | bool (b : Bool)
  | nat (n : Nat)
  | text (s : String)
  | array (items : List Value)
  | object (members : List Member)

/-- A key of an object with its value. -/
structure Member where
  key : String
  value : Value

end

/-! ## Strings -/

/-- A character of a string as it is written: quotes, backslashes and control characters are
escaped, everything else stands for itself. -/
def escapeChar (c : Char) : List Char :=
  if c = '"' then ['\\', '"']
  else if c = '\\' then ['\\', '\\']
  else if c = '\x08' then ['\\', 'b']
  else if c = '\x0c' then ['\\', 'f']
  else if c = '\n' then ['\\', 'n']
  else if c = '\r' then ['\\', 'r']
  else if c = '\t' then ['\\', 't']
  else if c.toNat < 0x20 then
    ['\\', 'u'] ++ Text.fixedDigits 16 4 c.toNat
  else [c]

/-- The characters of a string as they are written between quotes. -/
def escape (cs : List Char) : List Char :=
  cs.flatMap escapeChar

/-- A string in quotes. -/
def quoted (s : String) : List Char :=
  '"' :: escape s.toList ++ ['"']

/-! ## Values -/

/-- Whether a value is spread over lines. -/
inductive Style where
  | compact
  | pretty
  deriving DecidableEq, Repr

namespace Style

/-- What starts an item at a depth: a new line and two spaces for each level, or nothing. -/
def newLine (style : Style) (depth : Nat) : List Char :=
  match style with
  | compact => []
  | pretty => '\n' :: List.replicate (2 * depth) ' '

/-- What stands between a key and its value. -/
def colon : Style → List Char
  | compact => [':']
  | pretty => [':', ' ']

end Style

mutual

/-- The text of a value at a depth. -/
def Value.print (style : Style) (depth : Nat) : Value → List Char
  | .null => ['n', 'u', 'l', 'l']
  | .bool true => ['t', 'r', 'u', 'e']
  | .bool false => ['f', 'a', 'l', 's', 'e']
  | .nat n => Nat.toDigits 10 n
  | .text s => quoted s
  | .array [] => ['[', ']']
  | .array (item :: items) =>
    '[' :: style.newLine (depth + 1) ++ Value.print style (depth + 1) item
      ++ printItems style (depth + 1) items ++ style.newLine depth ++ [']']
  | .object [] => ['\x7b', '\x7d']
  | .object (member :: members) =>
    '\x7b' :: style.newLine (depth + 1) ++ Member.print style (depth + 1) member
      ++ printMembers style (depth + 1) members ++ style.newLine depth ++ ['\x7d']

/-- The text of the items after the first of an array. -/
def printItems (style : Style) (depth : Nat) : List Value → List Char
  | [] => []
  | item :: items =>
    ',' :: style.newLine depth ++ Value.print style depth item ++ printItems style depth items

/-- The text of the members after the first of an object. -/
def printMembers (style : Style) (depth : Nat) : List Member → List Char
  | [] => []
  | member :: members =>
    ',' :: style.newLine depth ++ Member.print style depth member
      ++ printMembers style depth members

/-- The text of a key and its value. -/
def Member.print (style : Style) (depth : Nat) : Member → List Char
  | ⟨key, value⟩ => quoted key ++ style.colon ++ Value.print style depth value

end

/-- The text of a value. -/
def Value.render (style : Style) (v : Value) : String :=
  String.ofList (v.print style 0)

end Json
end ModuleMerge
