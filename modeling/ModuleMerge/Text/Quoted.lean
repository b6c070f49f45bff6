import ModuleMerge.Text.Parts
import ModuleMerge.Text.Printable

/-!
# Quoted text

Text as it is shown in messages: in quotes, with every character escaped that would not show. Text
that is shown without quotes keeps its characters but for those that a terminal would obey.

* `quoteChar` is one character between the quotes, and `quote` a whole text in quotes.
* `tameChar` is one character outside quotes, and `tame` a whole text.
-/

set_option autoImplicit false

namespace ModuleMerge
namespace Text

/-- A character between quotes. Quotes and backslashes are escaped by a backslash, the usual
blanks by a letter, and characters that do not show by their number in braces. -/
def quoteChar (c : Char) : List Char :=
  if c = '"' then ['\\', '"']
  else if c = '\\' then ['\\', '\\']
  else if c = '\t' then ['\\', 't']
  else if c = '\r' then ['\\', 'r']
  else if c = '\n' then ['\\', 'n']
  else if c = '\x00' then ['\\', '0']
  else if isPrintable c then [c]
  else '\\' :: 'u' :: '\x7b' :: Nat.toDigits 16 c.toNat ++ ['\x7d']

/-- A text in quotes. -/
def quote (s : String) : String :=
  String.ofList ('"' :: s.toList.flatMap quoteChar ++ ['"'])

/-- A character outside quotes. The control characters that move a terminal's cursor, ring its bell
or begin its commands are escaped by their number; other ones, line breaks among them, are not. -/
def tameChar (c : Char) : List Char :=
  if c = '\x07' || c = '\x08' || c = '\x0c' || c = '\x1b' || c = '\x7f' then
    '\\' :: 'x' :: fixedDigits 16 2 c.toNat
  else if 0x80 ≤ c.toNat && c.toNat ≤ 0x9F then
    '\\' :: 'u' :: '\x7b' :: fixedDigits 16 2 c.toNat ++ ['\x7d']
  else [c]

/-- A text that a terminal shows and does not obey. -/
def tame (s : String) : String :=
  String.ofList (s.toList.flatMap tameChar)

end Text
end ModuleMerge
