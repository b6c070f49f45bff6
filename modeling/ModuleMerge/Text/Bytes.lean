/-!
# Byte offsets

Offsets into a text count the bytes of its UTF-8 form, while the text itself is a list of
characters.

* `byteLength` is the number of bytes of a text.
* `splitBytes?` cuts a text after a number of bytes, if that is a boundary between characters.
* `slice` is the text between two offsets, empty where the offsets name no part of the text.
* `Position.ofOffset` counts the lines and the bytes since the last line feed before an offset.
-/

set_option autoImplicit false

namespace ModuleMerge
namespace Text

/-- The number of bytes of a text in UTF-8. -/
def byteLength : List Char → Nat
  | [] => 0
  | c :: cs => c.utf8Size + byteLength cs

/-- The first `n` bytes of a text and the rest; nothing if `n` bytes end inside a character or
after the text. -/
def splitBytes? : Nat → List Char → Option (List Char × List Char)
  | 0, cs => some ([], cs)
  | _ + 1, [] => none
  | n + 1, c :: cs =>
    if c.utf8Size ≤ n + 1 then
      (splitBytes? (n + 1 - c.utf8Size) cs).map fun parts => (c :: parts.1, parts.2)
    else
      none

/-- The part of a text from byte `start` to byte `stop`; empty if `stop` comes before `start`, or
if one of the two is no boundary between characters of the text. -/
def slice (cs : List Char) (start stop : Nat) : List Char :=
  if start ≤ stop then
    match splitBytes? start cs with
    | some (_, rest) => ((splitBytes? (stop - start) rest).map Prod.fst).getD []
    | none => []
  else
    []

/-! ## Lines and columns -/

/-- A place in a text: the line feeds before it, and the bytes between the last of them and it. -/
structure Position where
  row : Nat
  column : Nat
  deriving DecidableEq, Repr

namespace Position

/-- The place where a text starts. -/
def origin : Position := ⟨0, 0⟩

/-- The place after one more character. -/
def after (p : Position) (c : Char) : Position :=
  if c = '\n' then ⟨p.row + 1, 0⟩ else ⟨p.row, p.column + c.utf8Size⟩

/-- The place `offset` bytes after `p`, over the characters that stand there. An offset inside a
character counts the bytes up to it. -/
def advance (p : Position) : Nat → List Char → Position
  | _, [] => p
  | offset, c :: cs =>
    if c.utf8Size ≤ offset then advance (p.after c) (offset - c.utf8Size) cs
    else ⟨p.row, p.column + offset⟩

/-- The place of a byte offset of a text. -/
def ofOffset (cs : List Char) (offset : Nat) : Position :=
  origin.advance offset cs

end Position

/-! ## Small facts -/

theorem byteLength_append (xs ys : List Char) :
    byteLength (xs ++ ys) = byteLength xs + byteLength ys := by
  induction xs with
  | nil => simp [byteLength]
  | cons c cs ih => simp [byteLength, ih, Nat.add_assoc]

/-- The two parts of a cut are the text, and the first has as many bytes as asked for. -/
theorem eq_append_of_splitBytes? {n : Nat} {cs front rest : List Char}
    (h : splitBytes? n cs = some (front, rest)) : cs = front ++ rest ∧ byteLength front = n := by
  induction cs generalizing n front with
  | nil =>
    cases n with
    | zero => simp_all [splitBytes?, byteLength]
    | succ n => simp [splitBytes?] at h
  | cons c cs ih =>
    cases n with
    | zero => simp_all [splitBytes?, byteLength]
    | succ n =>
      simp only [splitBytes?] at h
      split at h
      · rename_i hc
        simp only [Option.map_eq_some_iff] at h
        obtain ⟨⟨front', rest'⟩, h', heq⟩ := h
        obtain ⟨rfl, rfl⟩ := Prod.mk.inj heq
        obtain ⟨h1, h2⟩ := ih h'
        refine ⟨by simp [h1], ?_⟩
        simp only [byteLength, h2]
        omega
      · simp at h

end Text
end ModuleMerge
