import ModuleMerge.Proofs.JsonText

/-!
# JSON as it is written

One value can be written in many ways: with blanks between its parts, with letters or numbers as
escapes, with its members in another order. What is read from a text may depend only on some of
this. So the texts themselves are described here, each as a tree that holds everything that is
written, with what its numbers and strings stand for.

The texts are not given by a parser or a set of strings but by trees, one for each way of writing.
Well-formedness is part of the tree: a gap holds blanks only, a row of digits is not empty, a plain
character in a string is one that need not be escaped. So every tree has a text that is JSON, and a
statement about all texts of a kind is one about all trees of that kind, proved by recursion. It is
the readers that have to be compared with this, and nothing of them is used here but how halves of
characters are told and joined.

Not all of JSON has a meaning to the codecs. Numbers with a point, a sign or an exponent are well
written, but they are no ids. A string may escape one half of a character and not the other, and
stands for no text then. Such things may still occur in members that are skipped, so they have their
trees and only lack a value.

* `Written` is a value as it is written, `Numeral` a number and `Literal` a string.
* `Written.chars` is the text.
* `Numeral.natural?` and `Literal.text?` say what a number and a string stand for. A number may be
  none that is counted with, and a string may have halves of characters in it.
-/

set_option autoImplicit false

namespace ModuleMerge
namespace Json

/-! ## Blanks -/

/-- What is written between the parts of a value. -/
structure Gap where
  chars : List Char
  blank : ∀ c ∈ chars, c ∈ [' ', '\n', '\t', '\r']

namespace Gap

/-- Nothing. -/
def none : Gap := ⟨[], fun _ h => absurd h List.not_mem_nil⟩

/-- One space. -/
def space : Gap := ⟨[' '], fun _ h => List.mem_singleton.1 h ▸ List.mem_cons_self⟩

/-- What starts an item at a depth. -/
def newLine (style : Style) (depth : Nat) : Gap where
  chars := style.newLine depth
  blank c hc := by
    cases style with
    | compact => exact absurd hc List.not_mem_nil
    | pretty =>
      rcases List.mem_cons.1 hc with rfl | hc
      · decide
      · rw [List.eq_of_mem_replicate hc]
        decide

/-- What stands before what closes a row of items. -/
def beforeClosing (style : Style) (depth : Nat) (isEmpty : Bool) : Gap :=
  if isEmpty then none else newLine style depth

/-- What stands between a colon and a value. -/
def afterColon : Style → Gap
  | .compact => none
  | .pretty => space

theorem allBlank (gap : Gap) : AllBlank gap.chars := by
  intro c hc
  have hmem := gap.blank c hc
  simp only [List.mem_cons, List.not_mem_nil, or_false] at hmem
  rcases hmem with rfl | rfl | rfl | rfl <;> rfl

end Gap

/-! ## Numbers

A literal has a sign, a whole part, and perhaps a fraction and an exponent. For reading it matters
where each part ends, so every part is a row of characters of its own. -/

/-- A row of decimal digits. -/
structure Digits where
  chars : List Char
  ne_nil : chars ≠ []
  isDigit : ∀ c ∈ chars, c.isDigit = true

theorem Digits.exists_cons (ds : Digits) : ∃ c cs, ds.chars = c :: cs ∧ c.isDigit = true := by
  obtain ⟨c, cs, hcons⟩ := List.exists_cons_of_ne_nil ds.ne_nil
  exact ⟨c, cs, hcons, ds.isDigit c (hcons ▸ List.mem_cons_self)⟩

/-- A power of ten behind a number. -/
structure Exponent where
  letter : Char
  sign : List Char
  digits : Digits
  letter_mem : letter ∈ ['e', 'E']
  sign_mem : sign ∈ [[], ['+'], ['-']]

/-- A number. -/
structure Numeral where
  negative : Bool
  whole : Digits
  /-- What is written behind the point. -/
  fraction : Option Digits
  exponent : Option Exponent
  /-- Only zero itself starts with a zero. -/
  noLeadingZero : ∀ rest, whole.chars = '0' :: rest → rest = []

namespace Numeral

/-- The exponent of a number as it is written, if there is one. -/
def exponentChars (n : Numeral) : List Char :=
  match n.exponent with
  | none => []
  | some e => e.letter :: (e.sign ++ e.digits.chars)

/-- What is written behind the whole part. -/
def tail (n : Numeral) : List Char :=
  match n.fraction with
  | none => n.exponentChars
  | some digits => '.' :: (digits.chars ++ n.exponentChars)

/-- The text of a number behind its sign. -/
def unsigned (n : Numeral) : List Char :=
  n.whole.chars ++ n.tail

/-- The text of a number. -/
def chars (n : Numeral) : List Char :=
  (if n.negative then ['-'] else []) ++ n.unsigned

/-- The natural number that a number is the plain literal of: one without sign, point and
exponent. -/
def natural? (n : Numeral) : Option Nat :=
  if n.negative || n.fraction.isSome || n.exponent.isSome then none
  else some (Nat.ofDigitChars 10 n.whole.chars 0)

/-- A plain literal has none of the parts that make another kind of number. -/
theorem eq_of_natural? {n : Numeral} {value : Nat} (h : n.natural? = some value) :
    n.negative = false ∧ n.fraction = none ∧ n.exponent = none
      ∧ value = Nat.ofDigitChars 10 n.whole.chars 0 := by
  rw [natural?] at h
  split at h
  · contradiction
  · rename_i hplain
    simp only [Bool.or_eq_true, not_or, Bool.not_eq_true, Option.isSome_eq_false_iff,
      Option.isNone_iff_eq_none] at hplain
    exact ⟨hplain.1.1, hplain.1.2, hplain.2, (Option.some.inj h).symm⟩

/-- The literal of a natural number. -/
def ofNat (n : Nat) : Numeral where
  negative := false
  whole := ⟨Nat.toDigits 10 n, Nat.toDigits_ne_nil, fun _ hc =>
    Nat.isDigit_of_mem_toDigits (by decide) (by decide) hc⟩
  fraction := none
  exponent := none
  noLeadingZero rest h := by
    by_cases hpos : 0 < n
    · exact absurd (congrArg List.head? h) (head?_toDigits_ne hpos)
    · obtain rfl : n = 0 := by omega
      exact (List.cons.inj h).2.symm

@[simp] theorem natural?_ofNat (n : Nat) : (ofNat n).natural? = some n := by
  simp [natural?, ofNat]

end Numeral

/-! ## Strings

A character can be written as itself, behind a backslash, or by its number; those beyond 16 bits
take two numbers, a half each. -/

/-- The letters that stand for a character behind a backslash. -/
def shortEscapes : List (Char × Char) :=
  [('"', '"'), ('\\', '\\'), ('/', '/'), ('b', '\x08'), ('f', '\x0c'), ('n', '\n'), ('r', '\r'),
    ('t', '\t')]

/-- The hexadecimal digits in both cases. -/
def hexDigits : List (Char × Nat) :=
  [('0', 0), ('1', 1), ('2', 2), ('3', 3), ('4', 4), ('5', 5), ('6', 6), ('7', 7), ('8', 8),
    ('9', 9), ('a', 10), ('b', 11), ('c', 12), ('d', 13), ('e', 14), ('f', 15), ('A', 10),
    ('B', 11), ('C', 12), ('D', 13), ('E', 14), ('F', 15)]

/-- A hexadecimal digit with its value. -/
structure HexDigit where
  char : Char
  value : Nat
  mem : (char, value) ∈ hexDigits

theorem digitChar_mem_hexDigits : ∀ d < 16, (Nat.digitChar d, d) ∈ hexDigits := by
  decide

/-- The last hexadecimal digit of a number. -/
def HexDigit.ofNat (n : Nat) : HexDigit :=
  ⟨Nat.digitChar (n % 16), n % 16, digitChar_mem_hexDigits _ (Nat.mod_lt n (by decide))⟩

/-- Four hexadecimal digits, which make a number of 16 bits. -/
structure CodeUnit where
  a : HexDigit
  b : HexDigit
  c : HexDigit
  d : HexDigit

/-- The number that four hexadecimal digits make. -/
def CodeUnit.value (u : CodeUnit) : Nat :=
  ((u.a.value * 16 + u.b.value) * 16 + u.c.value) * 16 + u.d.value

/-- The last four hexadecimal digits of a number. -/
def CodeUnit.ofNat (n : Nat) : CodeUnit :=
  ⟨.ofNat (n / 16 / 16 / 16), .ofNat (n / 16 / 16), .ofNat (n / 16), .ofNat n⟩

theorem CodeUnit.value_ofNat {n : Nat} (h : n < 0x10000) : (ofNat n).value = n := by
  simp only [value, ofNat, HexDigit.ofNat]
  omega

/-- A part of a string. -/
inductive Piece where
  /-- A character that stands for itself. -/
  | plain (c : Char) (unescaped : c ∉ ['"', '\\'] ∧ 0x20 ≤ c.toNat)
  /-- A letter behind a backslash. -/
  | short (letter c : Char) (known : (letter, c) ∈ shortEscapes)
  /-- The number of a character, or that of a half of one. -/
  | unit (u : CodeUnit)

/-- The text of a part of a string. -/
def Piece.chars : Piece → List Char
  | .plain c _ => [c]
  | .short letter _ _ => ['\\', letter]
  | .unit u => ['\\', 'u', u.a.char, u.b.char, u.c.char, u.d.char]

/-- The part of a string that a character is written as. -/
def Piece.ofChar (c : Char) : Piece :=
  if hquote : c = '"' then .short '"' c (by simp [hquote, shortEscapes])
  else if hback : c = '\\' then .short '\\' c (by simp [hback, shortEscapes])
  else if hb : c = '\x08' then .short 'b' c (by simp [hb, shortEscapes])
  else if hf : c = '\x0c' then .short 'f' c (by simp [hf, shortEscapes])
  else if hn : c = '\n' then .short 'n' c (by simp [hn, shortEscapes])
  else if hr : c = '\r' then .short 'r' c (by simp [hr, shortEscapes])
  else if ht : c = '\t' then .short 't' c (by simp [ht, shortEscapes])
  else if hcontrol : c.toNat < 0x20 then .unit (.ofNat c.toNat)
  else .plain c ⟨by simp [hquote, hback], Nat.not_lt.1 hcontrol⟩

theorem Piece.chars_ofChar (c : Char) : (ofChar c).chars = escapeChar c := by
  rw [ofChar, escapeChar]
  split
  · rfl
  split
  · rfl
  split
  · rfl
  split
  · rfl
  split
  · rfl
  split
  · rfl
  split
  · rfl
  split <;> rfl

/-- A string. -/
structure Literal where
  pieces : List Piece

/-- The text of a row of parts of a string. -/
def piecesChars (pieces : List Piece) : List Char :=
  pieces.flatMap Piece.chars

/-- What a row of parts of a string stands for, if every first half of a character has its second
half behind it, and no second half stands alone. -/
def piecesText? : List Piece → Option (List Char)
  | [] => some []
  | .plain c _ :: rest => (piecesText? rest).map (c :: ·)
  | .short _ c _ :: rest => (piecesText? rest).map (c :: ·)
  | .unit u :: rest =>
    if Reader.isTrailing u.value then none
    else if Reader.isLeading u.value then
      match rest with
      | .unit v :: rest =>
        if Reader.isTrailing v.value then
          (piecesText? rest).map (Reader.joinHalves u.value v.value :: ·)
        else none
      | _ => none
    else (piecesText? rest).map (Char.ofNat u.value :: ·)

theorem piecesText?_ofChar (c : Char) (rest : List Piece) :
    piecesText? (Piece.ofChar c :: rest) = (piecesText? rest).map (c :: ·) := by
  rw [Piece.ofChar]
  split
  · rfl
  split
  · rfl
  split
  · rfl
  split
  · rfl
  split
  · rfl
  split
  · rfl
  split
  · rfl
  split
  · -- The number of a control character is small, so it is no half of another character.
    rename_i hcontrol
    have hvalue : (CodeUnit.ofNat c.toNat).value = c.toNat := CodeUnit.value_ofNat (by omega)
    have htrailing : Reader.isTrailing c.toNat = false := by
      simp only [Reader.isTrailing, Bool.and_eq_false_imp, decide_eq_true_eq]
      omega
    have hleading : Reader.isLeading c.toNat = false := by
      simp only [Reader.isLeading, Bool.and_eq_false_imp, decide_eq_true_eq]
      omega
    rw [piecesText?.eq_def]
    simp only [hvalue, htrailing, hleading, Bool.false_eq_true, if_false, Char.ofNat_toNat]
  · rfl

namespace Literal

/-- The text of a string behind its opening quote. -/
def inner (s : Literal) : List Char :=
  piecesChars s.pieces ++ ['"']

/-- The text of a string. -/
def chars (s : Literal) : List Char :=
  '"' :: s.inner

/-- What a string stands for. -/
def text? (s : Literal) : Option String :=
  (piecesText? s.pieces).map String.ofList

/-- The string that a text is written as. -/
def ofText (s : String) : Literal :=
  ⟨s.toList.map Piece.ofChar⟩

theorem inner_ofText (s : String) : (ofText s).inner = escape s.toList ++ ['"'] := by
  rw [inner, ofText, piecesChars, List.flatMap_map, escape, funext Piece.chars_ofChar]

@[simp] theorem text?_ofText (s : String) : (ofText s).text? = some s := by
  have hpieces : ∀ cs : List Char, piecesText? (cs.map Piece.ofChar) = some cs := by
    intro cs
    induction cs with
    | nil => rfl
    | cons c cs ih => rw [List.map_cons, piecesText?_ofChar, ih]; rfl
  rw [text?, ofText, hpieces, Option.map_some, String.ofList_toList]

end Literal

/-! ## Values

Commas and colons are put in by the text and are not part of the trees. In a row of items the last
has none behind it; the lemmas on `moreItems` and `moreMembers` take a row apart from the front. -/

mutual

/-- A value as it is written. -/
inductive Written where
  | null
  | bool (b : Bool)
  | number (n : Numeral)
  | text (s : Literal)
  | array (items : List WrittenItem) (closing : Gap)
  | object (members : List WrittenMember) (closing : Gap)

/-- An item of an array with what is written around it. -/
structure WrittenItem where
  before : Gap
  value : Written
  after : Gap

/-- A member of an object with what is written around its parts. -/
structure WrittenMember where
  before : Gap
  key : Literal
  beforeColon : Gap
  afterColon : Gap
  value : Written
  after : Gap

end

mutual

/-- The text of a value. -/
def Written.chars : Written → List Char
  | .null => ['n', 'u', 'l', 'l']
  | .bool true => ['t', 'r', 'u', 'e']
  | .bool false => ['f', 'a', 'l', 's', 'e']
  | .number n => n.chars
  | .text s => s.chars
  | .array items closing => '[' :: (itemsChars items ++ (closing.chars ++ [']']))
  | .object members closing => '\x7b' :: (membersChars members ++ (closing.chars ++ ['\x7d']))

/-- The text of an item. -/
def WrittenItem.chars : WrittenItem → List Char
  | ⟨before, value, after⟩ => before.chars ++ (value.chars ++ after.chars)

/-- The text of a row of items, with commas between them. -/
def itemsChars : List WrittenItem → List Char
  | [] => []
  | [item] => item.chars
  | item :: next :: items => item.chars ++ ',' :: itemsChars (next :: items)

/-- The text of a member. -/
def WrittenMember.chars : WrittenMember → List Char
  | ⟨before, key, beforeColon, afterColon, value, after⟩ =>
    before.chars ++ (key.chars ++ (beforeColon.chars
      ++ ':' :: (afterColon.chars ++ (value.chars ++ after.chars))))

/-- The text of a row of members, with commas between them. -/
def membersChars : List WrittenMember → List Char
  | [] => []
  | [m] => m.chars
  | m :: next :: members => m.chars ++ ',' :: membersChars (next :: members)

end

/-- The text of the items behind another one. -/
def moreItems : List WrittenItem → List Char
  | [] => []
  | item :: items => ',' :: itemsChars (item :: items)

theorem itemsChars_cons (item : WrittenItem) (items : List WrittenItem) :
    itemsChars (item :: items)
      = item.before.chars ++ (item.value.chars ++ (item.after.chars ++ moreItems items)) := by
  obtain ⟨before, value, after⟩ := item
  cases items <;> simp [itemsChars, WrittenItem.chars, moreItems]

/-- The text of the members behind another one. -/
def moreMembers : List WrittenMember → List Char
  | [] => []
  | m :: members => ',' :: membersChars (m :: members)

/-- The text of a member behind the quote that opens its key, with what follows. -/
def WrittenMember.inner (m : WrittenMember) (tail : List Char) : List Char :=
  m.key.inner ++ (m.beforeColon.chars ++ ':' :: (m.afterColon.chars ++ (m.value.chars ++ tail)))

theorem membersChars_cons (m : WrittenMember) (members : List WrittenMember)
    (tail : List Char) :
    membersChars (m :: members) ++ tail
      = m.before.chars ++ '"' :: m.inner (m.after.chars ++ (moreMembers members ++ tail)) := by
  obtain ⟨before, key, beforeColon, afterColon, value, after⟩ := m
  cases members <;>
    simp [membersChars, WrittenMember.chars, WrittenMember.inner, Literal.chars, moreMembers]

namespace Written

/-- What comes first in a value is neither a blank nor anything that separates or closes. -/
theorem exists_start (w : Written) : ∃ c cs, w.chars = c :: cs ∧ StartsValue c := by
  cases w with
  | null => exact ⟨'n', _, by rw [chars], by decide, by decide⟩
  | bool b => cases b <;> exact ⟨_, _, by rw [chars], by decide, by decide⟩
  | number n =>
    rw [chars, Numeral.chars]
    cases n.negative with
    | true => exact ⟨'-', _, rfl, by decide, by decide⟩
    | false =>
      obtain ⟨c, cs, hcons, hc⟩ := n.whole.exists_cons
      exact ⟨c, _, by simp [Numeral.unsigned, hcons]; rfl, startsValue_of_isDigit hc⟩
  | text s => exact ⟨'"', _, by rw [chars, Literal.chars], by decide, by decide⟩
  | array items closing => exact ⟨'[', _, by rw [chars], by decide, by decide⟩
  | object members closing => exact ⟨'\x7b', _, by rw [chars], by decide, by decide⟩

theorem length_chars_pos (w : Written) : 0 < w.chars.length := by
  obtain ⟨c, cs, hcons, -⟩ := w.exists_start
  rw [hcons]
  exact Nat.succ_pos _

/-- The natural number that a value is the plain literal of. -/
def natural? : Written → Option Nat
  | .number n => n.natural?
  | _ => none

/-- What a string stands for. -/
def text? : Written → Option String
  | .text s => s.text?
  | _ => none

/-- The truth value that is written. -/
def bool? : Written → Option Bool
  | .bool b => some b
  | _ => none

end Written

/-! ## What is written of a value -/

mutual

/-- How a value is written at a depth. -/
def Value.written (style : Style) (depth : Nat) : Value → Written
  | .null => .null
  | .bool b => .bool b
  | .nat n => .number (.ofNat n)
  | .text s => .text (.ofText s)
  | .array items =>
    .array (itemsWritten style (depth + 1) items) (.beforeClosing style depth items.isEmpty)
  | .object members =>
    .object (membersWritten style (depth + 1) members)
      (.beforeClosing style depth members.isEmpty)

/-- How the items of an array are written. -/
def itemsWritten (style : Style) (depth : Nat) : List Value → List WrittenItem
  | [] => []
  | item :: items =>
    ⟨.newLine style depth, item.written style depth, .none⟩ :: itemsWritten style depth items

/-- How the members of an object are written. -/
def membersWritten (style : Style) (depth : Nat) : List Member → List WrittenMember
  | [] => []
  | m :: members => m.written style depth :: membersWritten style depth members

/-- How a key and its value are written. -/
def Member.written (style : Style) (depth : Nat) : Member → WrittenMember
  | ⟨key, value⟩ =>
    ⟨.newLine style depth, .ofText key, .none, .afterColon style, value.written style depth, .none⟩

end

theorem Gap.colon_afterColon (style : Style) :
    ':' :: (Gap.afterColon style).chars = style.colon := by
  cases style <;> rfl

@[simp] theorem Gap.chars_none : Gap.none.chars = [] := rfl

@[simp] theorem Gap.chars_newLine (style : Style) (depth : Nat) :
    (Gap.newLine style depth).chars = style.newLine depth := rfl

mutual

/-- **What is printed** of a value is one way to write it. -/
theorem Value.chars_written (style : Style) : ∀ (v : Value) (depth : Nat),
    (v.written style depth).chars = v.print style depth
  | .null => fun depth => by rw [Value.written, Written.chars, Value.print]
  | .bool b => fun depth => by cases b <;> rw [Value.written, Written.chars, Value.print]
  | .nat n => fun depth => by
    rw [Value.written, Written.chars, Value.print, Numeral.chars]
    simp [Numeral.ofNat, Numeral.unsigned, Numeral.tail, Numeral.exponentChars]
  | .text s => fun depth => by
    rw [Value.written, Written.chars, Value.print, Literal.chars, Literal.inner_ofText, quoted]
    rfl
  | .array [] => fun depth => by
    rw [Value.written, itemsWritten, Written.chars, itemsChars, Value.print]
    rfl
  | .array (item :: items) => fun depth => by
    rw [Value.written, itemsWritten, Written.chars, itemsChars_cons, Value.print,
      Value.chars_written style item, moreItems_itemsWritten style items]
    simp [Gap.beforeClosing]
  | .object [] => fun depth => by
    rw [Value.written, membersWritten, Written.chars, membersChars, Value.print]
    rfl
  | .object (m :: members) => fun depth => by
    rw [Value.written, membersWritten, Written.chars, membersChars_cons, Value.print,
      Member.inner_written style m, moreMembers_membersWritten style members]
    cases m
    simp [Gap.beforeClosing, Member.written]

theorem moreItems_itemsWritten (style : Style) : ∀ (items : List Value) (depth : Nat),
    moreItems (itemsWritten style depth items) = printItems style depth items
  | [] => fun depth => by rw [itemsWritten, moreItems, printItems]
  | item :: items => fun depth => by
    rw [itemsWritten, moreItems, itemsChars_cons, printItems, Value.chars_written style item,
      moreItems_itemsWritten style items]
    simp

theorem moreMembers_membersWritten (style : Style) : ∀ (members : List Member) (depth : Nat),
    moreMembers (membersWritten style depth members) = printMembers style depth members
  | [] => fun depth => by rw [membersWritten, moreMembers, printMembers]
  | m :: members => fun depth => by
    rw [membersWritten, moreMembers, ← List.append_nil (membersChars _), membersChars_cons,
      printMembers, Member.inner_written style m, moreMembers_membersWritten style members]
    cases m
    simp [Member.written]

theorem Member.inner_written (style : Style) : ∀ (m : Member) (depth : Nat) (tail : List Char),
    '"' :: (m.written style depth).inner tail = m.print style depth ++ tail
  | ⟨key, value⟩ => fun depth tail => by
    rw [Member.written, WrittenMember.inner, Member.print, Value.chars_written style value,
      Literal.inner_ofText, quoted, ← Gap.colon_afterColon]
    simp

end

theorem Member.key_written (style : Style) (depth : Nat) (m : Member) :
    (m.written style depth).key = .ofText m.key := by
  cases m
  rw [Member.written]

theorem Member.value_written (style : Style) (depth : Nat) (m : Member) :
    (m.written style depth).value = m.value.written style depth := by
  cases m
  rw [Member.written]

/-- Nothing but `null` is written as `null`. -/
theorem Value.written_ne_null {v : Value} (h : v ≠ .null) (style : Style) (depth : Nat) :
    v.written style depth ≠ .null := by
  cases v with
  | null => exact absurd rfl h
  | bool _ | nat _ | text _ | array _ | object _ => rw [Value.written]; exact Written.noConfusion

/-- Every item is written as what it is. -/
theorem itemsWritten_eq_map (style : Style) (depth : Nat) (items : List Value) :
    itemsWritten style depth items
      = items.map fun item => ⟨.newLine style depth, item.written style depth, .none⟩ := by
  induction items with
  | nil => rw [itemsWritten, List.map_nil]
  | cons item items ih => rw [itemsWritten, ih, List.map_cons]

end Json
end ModuleMerge
