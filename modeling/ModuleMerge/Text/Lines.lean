/-!
# Line breaks

* `LineBreak` is the way a text ends its lines, and `LineBreak.ofText` reads it off a text.
* `terminatedLines` cuts a text after each line feed.
* `lastLine` is what follows the last line feed.
-/

set_option autoImplicit false

namespace ModuleMerge
namespace Text

/-- The way a text ends its lines. -/
inductive LineBreak where
  | lf
  | crlf
  deriving DecidableEq, Repr

/-- Whether a carriage return stands directly before a line feed anywhere in the text. -/
def hasCrlf : List Char → Bool
  | '\r' :: '\n' :: _ => true
  | _ :: cs => hasCrlf cs
  | [] => false

namespace LineBreak

/-- The characters of a line break. -/
def chars : LineBreak → List Char
  | lf => ['\n']
  | crlf => ['\r', '\n']

/-- A line break as a string. -/
def text : LineBreak → String
  | lf => "\n"
  | crlf => "\r\n"

/-- One carriage return before a line feed makes the text's line break `crlf`. -/
def ofChars (cs : List Char) : LineBreak :=
  if hasCrlf cs then crlf else lf

/-- `ofChars` on strings. -/
def ofText (s : String) : LineBreak :=
  ofChars s.toList

end LineBreak

/-- The lines of a text, each with the line feed that ends it; a last line may have none. -/
def terminatedLines : List Char → List (List Char)
  | [] => []
  | c :: cs =>
    if c = '\n' then
      [c] :: terminatedLines cs
    else
      match terminatedLines cs with
      | [] => [[c]]
      | line :: lines => (c :: line) :: lines

/-- What follows the last line feed of a text; the whole text if there is none. -/
def lastLine (cs : List Char) : List Char :=
  (cs.reverse.takeWhile (· ≠ '\n')).reverse

/-! ## Small facts -/

/-- Cutting into lines loses nothing. -/
theorem flatten_terminatedLines (cs : List Char) : (terminatedLines cs).flatten = cs := by
  induction cs with
  | nil => rfl
  | cons c cs ih =>
    rw [terminatedLines]
    split
    · simp [ih]
    · cases h : terminatedLines cs with
      | nil => simpa [h] using ih.symm
      | cons line lines => simpa [h] using ih

/-- The first line of a text, if it is ended. -/
theorem terminatedLines_append_newline {line : List Char} (h : '\n' ∉ line) (cs : List Char) :
    terminatedLines (line ++ '\n' :: cs) = (line ++ ['\n']) :: terminatedLines cs := by
  induction line with
  | nil => rfl
  | cons c rest ih =>
    rw [List.mem_cons, not_or] at h
    obtain ⟨hc, hrest⟩ := h
    rw [List.cons_append, terminatedLines, if_neg (Ne.symm hc), ih hrest]
    rfl

@[simp] theorem toList_text (b : LineBreak) : b.text.toList = b.chars := by
  cases b <;> rfl

end Text
end ModuleMerge
