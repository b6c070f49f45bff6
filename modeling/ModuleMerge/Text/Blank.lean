/-!
# Blank characters

The characters with the Unicode property White_Space, and what is left of a text when they are
cut from its ends.

* `isBlank` decides the property from its table of ranges.
* `trimStart`, `trimEnd` and `trim` cut blanks from the start, the end and both ends.
-/

set_option autoImplicit false

namespace ModuleMerge
namespace Text

/-- The ranges of code points with the property White_Space, first and last included. -/
def blankRanges : List (Nat × Nat) :=
  [(0x0009, 0x000D), (0x0020, 0x0020), (0x0085, 0x0085), (0x00A0, 0x00A0), (0x1680, 0x1680),
   (0x2000, 0x200A), (0x2028, 0x2029), (0x202F, 0x202F), (0x205F, 0x205F), (0x3000, 0x3000)]

/-- Whether a character has the property White_Space. -/
def isBlank (c : Char) : Bool :=
  blankRanges.any fun range => range.1 ≤ c.toNat && c.toNat ≤ range.2

/-- The text without the blanks it starts with. -/
def trimStart (cs : List Char) : List Char :=
  cs.dropWhile isBlank

/-- The text without the blanks it ends with. -/
def trimEnd (cs : List Char) : List Char :=
  (cs.reverse.dropWhile isBlank).reverse

/-- The text without the blanks at either end. -/
def trim (cs : List Char) : List Char :=
  trimEnd (trimStart cs)

/-- `trim` on strings. -/
def trimmed (s : String) : String :=
  String.ofList (trim s.toList)

/-- The characters A to Z in lower case, every other character as it is. -/
def lowerAscii (cs : List Char) : List Char :=
  cs.map Char.toLower

/-! ## Small facts -/

/-- Every character that core counts as white space is blank. -/
theorem isBlank_of_isWhitespace {c : Char} (h : c.isWhitespace = true) : isBlank c = true := by
  simp only [Char.isWhitespace, Bool.or_eq_true, decide_eq_true_eq] at h
  rcases h with ((rfl | rfl) | rfl) | rfl <;> decide

/-- A text trimmed at its start does not start with a blank. -/
theorem head?_trimStart {cs : List Char} {c : Char} (h : (trimStart cs).head? = some c) :
    isBlank c = false := by
  induction cs with
  | nil => simp [trimStart] at h
  | cons d ds ih =>
    cases hd : isBlank d with
    | true => exact ih (by simpa [trimStart, hd] using h)
    | false =>
      simp only [trimStart, List.dropWhile_cons, hd] at h
      simpa [← Option.some.inj h] using hd

end Text
end ModuleMerge
