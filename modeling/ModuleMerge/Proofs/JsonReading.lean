import ModuleMerge.Proofs.JsonGrammar

/-!
# Reading what is written

What the readers do with a text is said here for every way to write it. A string gives what it
stands for, or nothing if it stands for nothing. The literal of a natural number gives this number,
and no other number is taken for a natural one. And a value that nobody asks for is passed over,
whatever it is.

All of it has one form. A piece of text as it is written is followed by any text at all, or by any
that may stand behind a value, and the reader stops just where the piece ends. So the laws can be
put one behind the other, as the readers are. Three things have to be seen to.

* **Where a piece ends.** A string has a quote at its end, but nothing closes a number. It goes on
  as long as digits, a point or an exponent follow, so the text behind it has to begin with
  something else. `EndsValue` says so, and it is handed down from a number to the whole part, the
  fraction and the exponent that make it up.
* **What is refused.** For strings the reader and the meaning are compared as options: the reader
  gives something exactly if the string stands for something. Why it is refused, and where, is no
  part of these laws. For numbers the two sides do not match so well, because a number that is no
  natural one may be read or refused, for reasons that have to do with its size. There it is enough
  that whatever is read is not taken for a natural number, which is what `Yields` says.
* **Fuel.** Passing over a value takes as much fuel as there are arrays and objects to enter and
  items to pass. Twice the length of what is written is always enough, since each of them takes a
  character of its own.

* `Reader.toOption_string` reads strings.
* `Reader.number_plain` reads natural numbers, and `Reader.yields_number_unsigned` says what becomes
  of all other numbers.
* `Reader.skipValue_chars` passes over values.
-/

set_option autoImplicit false

namespace ModuleMerge
namespace Json

/-! ## Strings

A string is a row of pieces: characters that stand for themselves, short escapes and code units by
number. There is one lemma for each piece, which says what the reader does when the piece comes next
and leaves what follows to the reader. Code units are the hard ones. One that is half a character
has a meaning only together with its neighbour, so a first half reads on into the next piece, and a
second half without a first is refused at once. -/

namespace Reader

theorem toOption_consTo (c : Char) (read : Except Fault (List Char × List Char)) :
    (consTo c read).toOption = read.toOption.map fun r => (c :: r.1, r.2) := by
  cases read <;> rfl

theorem hexValue?_of_mem : ∀ pair ∈ hexDigits, hexValue? pair.1 = some pair.2 := by
  decide

/-- The four digits of a code unit are read as its value. -/
theorem hexValues?_unit (u : CodeUnit) :
    hexValues? u.a.char u.b.char u.c.char u.d.char = some u.value := by
  simp [hexValues?, hexValue?_of_mem _ u.a.mem, hexValue?_of_mem _ u.b.mem,
    hexValue?_of_mem _ u.c.mem, hexValue?_of_mem _ u.d.mem, CodeUnit.value]

/-- A character that needs no escape is taken as it is. -/
theorem stringChars_plain {c : Char} (h : c ∉ ['"', '\\'] ∧ 0x20 ≤ c.toNat) (rest : List Char) :
    stringChars (c :: rest) = consTo c (stringChars rest) := by
  obtain ⟨hmem, hcontrol⟩ := h
  simp only [List.mem_cons, List.not_mem_nil, or_false, not_or] at hmem
  rw [stringChars.eq_def]
  split <;> simp_all [Nat.not_lt.2]

/-- The letter behind a backslash is looked up in the table that the pieces are made from, so this
is a matter of going through its rows. -/
theorem stringChars_short {letter c : Char} (h : (letter, c) ∈ shortEscapes) (rest : List Char) :
    stringChars ('\\' :: letter :: rest) = consTo c (stringChars rest) := by
  simp only [shortEscapes, List.mem_cons, Prod.mk.injEq, List.not_mem_nil, or_false] at h
  rcases h with ⟨rfl, rfl⟩ | ⟨rfl, rfl⟩ | ⟨rfl, rfl⟩ | ⟨rfl, rfl⟩ | ⟨rfl, rfl⟩ | ⟨rfl, rfl⟩
    | ⟨rfl, rfl⟩ | ⟨rfl, rfl⟩ <;> rfl

section

variable {u v : CodeUnit} {rest : List Char}

/-- A code unit that is no half of a character stands for one by itself. -/
theorem stringChars_unit (htrailing : isTrailing u.value = false)
    (hleading : isLeading u.value = false) :
    stringChars ((Piece.unit u).chars ++ rest)
      = consTo (Char.ofNat u.value) (stringChars rest) := by
  simp only [Piece.chars, List.cons_append, List.nil_append]
  rw [stringChars]
  simp only [hexValues?_unit, htrailing, hleading, Bool.false_eq_true, if_false]

/-- Two code units are one character if the second one is a second half. A first half with anything
else behind it is refused, and the reader says so at the end of the second one. -/
theorem stringChars_pair (htrailing : isTrailing u.value = false)
    (hleading : isLeading u.value = true) :
    stringChars ((Piece.unit u).chars ++ ((Piece.unit v).chars ++ rest))
      = if isTrailing v.value then
          consTo (joinHalves u.value v.value) (stringChars rest)
        else .error (.here .loneSurrogate rest) := by
  simp only [Piece.chars, List.cons_append, List.nil_append]
  rw [stringChars]
  simp only [hexValues?_unit, htrailing, hleading, Bool.false_eq_true, if_false, if_true]

/-- A second half does not come first. -/
theorem toOption_stringChars_trailing (htrailing : isTrailing u.value = true) :
    (stringChars ((Piece.unit u).chars ++ rest)).toOption = none := by
  simp only [Piece.chars, List.cons_append, List.nil_append]
  rw [stringChars]
  simp only [hexValues?_unit, htrailing, if_true]
  rfl

/-- A first half of a character needs a second one behind it. -/
theorem toOption_stringChars_leading (htrailing : isTrailing u.value = false)
    (hleading : isLeading u.value = true) (hrest : ∀ tail, rest ≠ '\\' :: 'u' :: tail) :
    (stringChars ((Piece.unit u).chars ++ rest)).toOption = none := by
  simp only [Piece.chars, List.cons_append, List.nil_append]
  rw [stringChars]
  simp only [hexValues?_unit, htrailing, hleading, Bool.false_eq_true, if_false, if_true]
  split
  · exact absurd rfl (hrest _)
  · exact absurd rfl (hrest _)
  all_goals rfl

end

/-- **A string is read as what it stands for**, whatever follows it, and refused if it stands for
nothing.

The induction goes along the meaning of the string and not along its pieces, for the meaning takes
two pieces at a time where they are two halves of a character, and so does the reader. -/
theorem stringChars_pieces (pieces : List Piece) (rest : List Char) :
    (stringChars (piecesChars pieces ++ '"' :: rest)).toOption
      = (piecesText? pieces).map fun cs => (cs, rest) := by
  have hcons : ∀ piece pieces, piecesChars (piece :: pieces) ++ '"' :: rest
      = piece.chars ++ (piecesChars pieces ++ '"' :: rest) := by
    intro piece pieces
    rw [piecesChars, List.flatMap_cons, List.append_assoc]
    rfl
  induction pieces using piecesText?.induct with
  | case1 => rfl
  -- A character, and then a short escape, with a meaning that does not depend on its neighbours.
  | case2 c h pieces ih =>
    rw [hcons, Piece.chars, List.singleton_append, stringChars_plain h, toOption_consTo, ih,
      piecesText?, Option.map_map, Option.map_map]
    rfl
  | case3 letter c h pieces ih =>
    rw [hcons, Piece.chars, List.cons_append, List.singleton_append, stringChars_short h,
      toOption_consTo, ih, piecesText?, Option.map_map, Option.map_map]
    rfl
  -- A second half where a character should start.
  | case4 u pieces htrailing =>
    rw [hcons, toOption_stringChars_trailing htrailing, piecesText?.eq_def]
    simp only [htrailing, if_true, Option.map_none]
  -- A first half with its second half, with another code unit, and with no code unit behind it.
  | case5 u htrailing hleading v pieces hsecond ih =>
    rw [hcons, hcons, stringChars_pair (Bool.eq_false_iff.2 htrailing) hleading, if_pos hsecond,
      toOption_consTo, ih, piecesText?, if_neg htrailing, if_pos hleading, Option.map_map]
    simp only [hsecond, if_true, Option.map_map]
    rfl
  | case6 u htrailing hleading v pieces hsecond =>
    rw [hcons, hcons, stringChars_pair (Bool.eq_false_iff.2 htrailing) hleading, if_neg hsecond,
      piecesText?, if_neg htrailing, if_pos hleading]
    simp only [hsecond]
    rfl
  | case7 u pieces htrailing hleading hsecond =>
    -- No other part of a string starts as a second half does.
    have hstart : ∀ tail, piecesChars pieces ++ '"' :: rest ≠ '\\' :: 'u' :: tail := by
      intro tail heq
      cases pieces with
      | nil => simp [piecesChars] at heq
      | cons piece pieces =>
        rw [hcons] at heq
        cases piece with
        | plain c h =>
          obtain rfl : c = '\\' := (List.cons.inj heq).1
          exact absurd h.1 (by decide)
        | short letter c h =>
          obtain rfl : letter = 'u' := (List.cons.inj (List.cons.inj heq).2).1
          have hu : ∀ pair ∈ shortEscapes, pair.1 ≠ 'u' := by decide
          exact hu _ h rfl
        | unit v => exact hsecond v pieces rfl
    rw [hcons, toOption_stringChars_leading (Bool.eq_false_iff.2 htrailing) hleading hstart,
      piecesText?.eq_def]
    simp only [htrailing, hleading, if_true, if_false, Bool.false_eq_true]
    rfl
  -- A code unit that is a character.
  | case8 u pieces htrailing hleading ih =>
    rw [hcons, stringChars_unit (Bool.eq_false_iff.2 htrailing) (Bool.eq_false_iff.2 hleading),
      toOption_consTo, ih, piecesText?.eq_def (_ :: _)]
    simp only [htrailing, hleading, if_false, Bool.false_eq_true, Option.map_map]
    rfl

/-- **Strings behind their opening quotes.** The reader of a value has seen the quote already when
it knows that a string comes. -/
theorem toOption_string (s : Literal) (rest : List Char) :
    (string (s.inner ++ rest)).toOption = s.text?.map fun text => (text, rest) := by
  have hmap : ∀ read : Except Fault (List Char × List Char),
      (read.map fun r => (String.ofList r.1, r.2)).toOption
        = read.toOption.map fun r => (String.ofList r.1, r.2) := by
    rintro (_ | _) <;> rfl
  rw [Literal.inner, List.append_assoc, List.singleton_append, string, hmap, stringChars_pieces,
    Literal.text?, Option.map_map, Option.map_map]
  rfl

/-- A string is passed over whatever it stands for, and also if it stands for nothing: halves of
characters are not looked at when nobody asks what the string says. -/
theorem skipStringChars_pieces (pieces : List Piece) (rest : List Char) :
    skipStringChars (piecesChars pieces ++ '"' :: rest) = .ok rest := by
  induction pieces with
  | nil => rfl
  | cons piece pieces ih =>
    rw [piecesChars, List.flatMap_cons, List.append_assoc, ← piecesChars]
    cases piece with
    | plain c h =>
      obtain ⟨hmem, hcontrol⟩ := h
      simp only [List.mem_cons, List.not_mem_nil, or_false, not_or] at hmem
      rw [Piece.chars, List.singleton_append, skipStringChars.eq_def]
      split <;> simp_all [Nat.not_lt.2]
    | short letter c h =>
      simp only [shortEscapes, List.mem_cons, Prod.mk.injEq, List.not_mem_nil, or_false] at h
      rcases h with ⟨rfl, rfl⟩ | ⟨rfl, rfl⟩ | ⟨rfl, rfl⟩ | ⟨rfl, rfl⟩ | ⟨rfl, rfl⟩ | ⟨rfl, rfl⟩
        | ⟨rfl, rfl⟩ | ⟨rfl, rfl⟩ <;> exact ih
    | unit u =>
      simp only [Piece.chars, List.cons_append, List.nil_append]
      rw [skipStringChars]
      simp only [hexValues?_unit, ih]

/-- A string is passed over up to its closing quote, whatever it stands for. -/
theorem skipString_inner (s : Literal) (rest : List Char) :
    skipString (s.inner ++ rest) = .ok ((), rest) := by
  rw [skipString, Literal.inner, List.append_assoc, List.singleton_append, skipStringChars_pieces]
  rfl

/-! ## Passing over numbers

A number is a whole part, perhaps a point with digits, and perhaps an exponent. Each part is passed
over by a reader of its own, which has to be told that its digits end where they are meant to. So
the lemmas go from the end of a number to its start: `head_exponentChars` says how an exponent
begins, and `head_tail_not_isDigit` how all that follows the whole part does. -/

/-- Digits are read up to the first character that is none. -/
theorem digits_chars (ds : Digits) {rest : List Char}
    (hrest : ∀ c ∈ rest.head?, c.isDigit = false) :
    digits (ds.chars ++ rest) = .ok (ds.chars, rest) := by
  rw [digits, Reading.takeWhile_append ds.isDigit hrest, Reading.dropWhile_append ds.isDigit hrest]

theorem isEmpty_digits (ds : Digits) : ds.chars.isEmpty = false :=
  List.isEmpty_eq_false_iff.2 ds.ne_nil

/-- What may stand behind a value is no letter of an exponent, so nothing is passed over. -/
theorem skipExponent?_of_ends {rest : List Char} (hrest : EndsValue rest) :
    skipExponent? rest = .ok ((), rest) := by
  rw [skipExponent?, Reading.bind_ok (rest_eq _)]
  cases rest with
  | nil => rfl
  | cons c rest =>
    have hc := hrest c rfl
    simp only [List.mem_cons, List.not_mem_nil, or_false] at hc
    obtain rfl | rfl | rfl | rfl | rfl | rfl | rfl := hc <;> rfl

/-- An exponent is passed over with its letter and its sign. -/
theorem skipExponent?_exponent (e : Exponent) {rest : List Char} (hrest : EndsValue rest) :
    skipExponent? (e.letter :: (e.sign ++ (e.digits.chars ++ rest))) = .ok ((), rest) := by
  obtain ⟨letter, sign, ds, hletter, hsign⟩ := e
  -- From the inside out: the digits, then a sign before them if there is one, then the letter.
  have hdigits := digits_chars ds hrest.head_not_isDigit
  have hend : (do
      let read ← digits
      if read.isEmpty then failNext .badNumber else pure () : Reader Unit) (ds.chars ++ rest)
        = .ok ((), rest) := by
    rw [Reading.bind_ok hdigits, isEmpty_digits]
    rfl
  have hexponent : skipExponent (sign ++ (ds.chars ++ rest)) = .ok ((), rest) := by
    rw [skipExponent, Reading.bind_ok (rest_eq _)]
    simp only [List.mem_cons, List.not_mem_nil, or_false] at hsign
    rcases hsign with rfl | rfl | rfl
    · obtain ⟨c, cs, hcons, hc⟩ := ds.exists_cons
      rw [List.nil_append]
      generalize htext : ds.chars ++ rest = text at hend
      rw [hcons, List.cons_append] at htext
      -- A digit is no sign.
      split
      · obtain rfl := (List.cons.inj htext).1
        exact absurd hc (by decide)
      · obtain rfl := (List.cons.inj htext).1
        exact absurd hc (by decide)
      · exact hend
    · exact hend
    · exact hend
  rw [skipExponent?, Reading.bind_ok (rest_eq _)]
  simp only [List.mem_cons, List.not_mem_nil, or_false] at hletter
  rcases hletter with rfl | rfl <;> exact hexponent

/-- An exponent, or what follows a number without one, starts with no digit and no point. So the
digits before it end there, and no fraction begins. -/
theorem head_exponentChars (n : Numeral) {rest : List Char} (hrest : EndsValue rest) :
    ∀ c ∈ (n.exponentChars ++ rest).head?, c.isDigit = false ∧ c ≠ '.' := by
  intro c hc
  rw [Numeral.exponentChars] at hc
  cases hexponent : n.exponent with
  | none =>
    simp only [hexponent, List.nil_append] at hc
    have hmem := hrest c hc
    simp only [List.mem_cons, List.not_mem_nil, or_false] at hmem
    rcases hmem with rfl | rfl | rfl | rfl | rfl | rfl | rfl <;> decide
  | some e =>
    obtain rfl : e.letter = c := by simpa [hexponent] using hc
    have hletter := e.letter_mem
    simp only [List.mem_cons, List.not_mem_nil, or_false] at hletter
    rcases hletter with hletter | hletter <;> rw [hletter] <;> decide

/-- Behind the whole part of a number there is no further digit. -/
theorem head_tail_not_isDigit (n : Numeral) {rest : List Char} (hrest : EndsValue rest) :
    ∀ c ∈ (n.tail ++ rest).head?, c.isDigit = false := by
  intro c hc
  rw [Numeral.tail] at hc
  cases hfraction : n.fraction with
  | none => exact (head_exponentChars n hrest c (by simpa [hfraction] using hc)).1
  | some ds =>
    obtain rfl : '.' = c := by simpa [hfraction] using hc
    rfl

/-- The two cases together: a number has an exponent or it ends here. -/
theorem skipExponent?_exponentChars (n : Numeral) {rest : List Char} (hrest : EndsValue rest) :
    skipExponent? (n.exponentChars ++ rest) = .ok ((), rest) := by
  rw [Numeral.exponentChars]
  cases n.exponent with
  | none => exact skipExponent?_of_ends hrest
  | some e => simpa using skipExponent?_exponent e hrest

/-- All that follows the whole part is passed over. Without a fraction it does not start with a
point, so the reader goes on to the exponent as it should. -/
theorem skipFraction?_tail (n : Numeral) {rest : List Char} (hrest : EndsValue rest) :
    skipFraction? (n.tail ++ rest) = .ok ((), rest) := by
  have hexponent := skipExponent?_exponentChars n hrest
  have hhead := head_exponentChars n hrest
  rw [skipFraction?, Reading.bind_ok (rest_eq _), Numeral.tail]
  cases n.fraction with
  | none =>
    simp only
    generalize n.exponentChars ++ rest = text at hexponent hhead
    split
    · exact absurd rfl (hhead _ rfl).2
    · exact hexponent
  | some ds =>
    have hdigits := digits_chars ds fun c hc => (hhead c hc).1
    simp only [List.cons_append, List.append_assoc]
    rw [Reading.bind_ok (advance_cons _ _), Reading.bind_ok hdigits, isEmpty_digits]
    exact hexponent

/-- The whole part is passed over. A zero is looked at apart from other digits, because the reader
takes no further digit behind it, and a numeral has none there. -/
theorem skipWhole_whole (n : Numeral) {rest : List Char} (hrest : EndsValue rest) :
    skipWhole (n.whole.chars ++ (n.tail ++ rest)) = .ok ((), n.tail ++ rest) := by
  have hhead := head_tail_not_isDigit n hrest
  have hdigits := digits_chars n.whole hhead
  rw [skipWhole, Reading.bind_ok (rest_eq _)]
  generalize htext : n.whole.chars ++ (n.tail ++ rest) = text at hdigits
  split
  · -- A zero is the whole part, and something follows it that is no digit.
    rename_i c cs
    obtain ⟨d, ds, hcons, -⟩ := n.whole.exists_cons
    rw [hcons, List.cons_append] at htext
    obtain ⟨rfl, hleft⟩ := List.cons.inj htext
    obtain rfl : ds = [] := n.noLeadingZero ds hcons
    rw [List.nil_append] at hleft
    have hc : c.isDigit = false := hhead c (by rw [hleft]; rfl)
    rw [Reading.bind_ok (advance_cons _ _), hc, hleft]
    rfl
  · rw [Reading.bind_ok hdigits, isEmpty_digits]
    rfl

/-- **A number is passed over** behind its sign, which the reader of values has passed over
already. -/
theorem skipNumber_unsigned (n : Numeral) {rest : List Char} (hrest : EndsValue rest) :
    skipNumber (n.unsigned ++ rest) = .ok ((), rest) := by
  rw [Numeral.unsigned, List.append_assoc, skipNumber, Reading.bind_ok (skipWhole_whole n hrest)]
  exact skipFraction?_tail n hrest

/-! ## What readers may give

A number that is no natural number is read in many ways: by its exponent, its size and its sign it
may become a floating point number, zero or a fault. To follow each of them to its end would say
much that nobody asks. What matters is that no way ends in a natural number. -/

/-- Whatever a reader gives has a property. It says nothing of texts that the reader refuses, and it
does not ask what the reader was given: a step may hand anything on to the next one, as long as the
last one gives what it should. -/
def Yields {α : Type} (P : α → Prop) (r : Reader α) : Prop :=
  ∀ cs a left, r cs = .ok (a, left) → P a

section

variable {α β : Type} {P : α → Prop}

/-- The last step counts. -/
theorem Yields.bind {x : Reader β} {f : β → Reader α} (h : ∀ b, Yields P (f b)) :
    Yields P (x >>= f) := by
  intro cs a left hok
  simp only [Bind.bind, StateT.bind] at hok
  cases hx : x cs with
  | error fault =>
    rw [hx] at hok
    contradiction
  | ok r =>
    rw [hx] at hok
    exact h r.1 r.2 a left hok

theorem yields_pure {a : α} (h : P a) : Yields P (pure a : Reader α) := by
  intro cs b left hok
  obtain ⟨rfl, -⟩ := Prod.mk.inj (Except.ok.inj hok)
  exact h

theorem yields_failHere (problem : Problem) : Yields P (failHere problem) := by
  intro cs a left hok
  contradiction

theorem yields_failNext (problem : Problem) : Yields P (failNext problem) := by
  intro cs a left hok
  contradiction

end

/-- A value of the wrong kind is never taken for another one. Whatever stands there, the reader goes
over it to say what it has found, and then it fails. -/
theorem yields_mismatch {α : Type} (wanted : String) :
    Yields (fun _ : α => False) (mismatch wanted) := by
  rw [mismatch]
  refine .bind fun cs => ?_
  split
  · exact .bind fun _ => .bind fun _ => yields_failHere _
  · exact .bind fun _ => .bind fun _ => yields_failHere _
  · exact .bind fun _ => .bind fun _ => yields_failHere _
  · exact .bind fun _ => .bind fun _ => yields_failHere _
  · exact .bind fun _ => .bind fun _ => yields_failHere _
  · exact yields_failHere _
  · exact yields_failHere _
  · split
    · exact .bind fun _ => yields_failHere _
    · exact yields_failNext _
  · exact yields_failHere _

/-! ## Reading numbers

The reader of numbers adds up the digits of the whole part as far as 64 bits hold the sum, and then
looks at what comes next. With a point, an exponent or more digits the number becomes a floating
point one, so it is other than a natural number in any case. The way that ends in a natural number
is the one where nothing comes next, and `number_plain` goes it to the end. -/

/-- A number that is no natural number: a fraction, one with an exponent, or one below zero. -/
def Number.IsOther : Number → Prop
  | .integer n => n < 0
  | .float _ => True

theorem yields_floatOf (negative : Bool) (significand : Nat) (exponent : Int) :
    Yields Number.IsOther (floatOf negative significand exponent) := by
  rw [floatOf]
  split
  · exact yields_pure trivial
  · exact yields_failHere _

/-- With an exponent, whatever comes of it is no natural number. -/
theorem yields_exponentPart (negative : Bool) (significand : Nat) (exponent : Int) :
    Yields Number.IsOther (exponentPart negative significand exponent) := by
  refine .bind fun below => ?_
  rw [exponentDigits]
  refine .bind fun cs => ?_
  split
  · exact yields_failHere _
  · split
    · refine .bind fun read => ?_
      simp only
      split
      · exact yields_floatOf _ _ _
      · split
        · intro cs a left hok
          contradiction
        · exact yields_pure trivial
    · exact yields_failNext _

/-- Nor is it with digits behind a point. -/
theorem yields_fractionPart (negative : Bool) (significand : Nat) (exponent : Int) :
    Yields Number.IsOther (fractionPart negative significand exponent) := by
  rw [fractionPart]
  refine .bind fun read => .bind fun left => ?_
  split
  · exact yields_failHere _
  · exact yields_failNext _
  · simp only
    split
    · exact .bind fun _ => yields_exponentPart _ _ _
    · exact .bind fun _ => yields_exponentPart _ _ _
    · exact yields_floatOf _ _ _

/-- Below zero, and the zero that has a sign is a floating point number. -/
theorem isOther_wholeNumber (n : Nat) : (wholeNumber true n).IsOther := by
  rw [wholeNumber]
  simp only [Bool.not_true, Bool.false_eq_true, if_false]
  split
  · trivial
  · show -(n : Int) < 0
    omega

/-- Behind a sign there is no natural number. The reader is told of the sign, and then every way
through it ends in a number below zero, in a floating point number or in a fault. -/
theorem yields_number_negative : Yields Number.IsOther (number true) := by
  rw [number]
  refine .bind fun cs => ?_
  split
  · exact yields_failHere _
  · split
    · exact yields_failNext _
    · split
      · exact .bind fun _ => yields_failNext _
      · refine .bind fun read => ?_
        rw [afterWhole]
        refine .bind fun left => ?_
        split
        · exact .bind fun _ => yields_fractionPart _ _ _
        · exact .bind fun _ => yields_exponentPart _ _ _
        · exact .bind fun _ => yields_exponentPart _ _ _
        · split
          · exact yields_pure (isOther_wholeNumber _)
          · exact yields_floatOf _ _ _

/-- The whole part of a number is read first, and its digits are taken as far as the bound allows.
The reader asks whether a zero is followed by a digit, which is the case that no numeral has. -/
theorem number_unsigned (n : Numeral) {rest : List Char} (hrest : EndsValue rest) :
    number false (n.unsigned ++ rest)
      = afterWhole false (takeDigits 0xFFFFFFFFFFFFFFFF 0 n.whole.chars) (n.tail ++ rest) := by
  have hhead := head_tail_not_isDigit n hrest
  have hdigits := digits_chars n.whole hhead
  obtain ⟨c, cs, hcons, hc⟩ := n.whole.exists_cons
  -- Only zero starts with a zero, and it has no further digit.
  have hzero : ¬ (c = '0'
      ∧ ((cs ++ (n.tail ++ rest)).head?.map Char.isDigit).getD false = true) := by
    rintro ⟨rfl, hnext⟩
    obtain rfl : cs = [] := n.noLeadingZero cs hcons
    rw [List.nil_append] at hnext
    cases htail : (n.tail ++ rest).head? with
    | none => simp [htail] at hnext
    | some d =>
      have hd := hhead d htail
      simp [htail, hd] at hnext
  rw [hcons, List.cons_append] at hdigits
  rw [Numeral.unsigned, List.append_assoc, hcons, List.cons_append, number,
    Reading.bind_ok (rest_eq _)]
  simp only [hc, Bool.not_true, Bool.false_eq_true, if_false, if_neg hzero]
  rw [Reading.bind_ok hdigits]

/-- **The literal of a natural number** is read, if 64 bits hold the number. A larger one becomes a
floating point number, so nothing like it can be said without the bound. -/
theorem number_plain {n : Numeral} {value : Nat} (hvalue : n.natural? = some value)
    (hbound : value ≤ 0xFFFFFFFFFFFFFFFF) {rest : List Char} (hrest : EndsValue rest) :
    number false (n.unsigned ++ rest) = .ok (.integer value, rest) := by
  obtain ⟨-, hfraction, hexponent, rfl⟩ := Numeral.eq_of_natural? hvalue
  have htail : n.tail = [] := by simp [Numeral.tail, Numeral.exponentChars, hfraction, hexponent]
  rw [number_unsigned n hrest, htail, List.nil_append, takeDigits_eq _ _ hbound]
  cases rest with
  | nil => rfl
  | cons c rest =>
    have hc := hrest c rfl
    simp only [List.mem_cons, List.not_mem_nil, or_false] at hc
    obtain rfl | rfl | rfl | rfl | rfl | rfl | rfl := hc <;> rfl

/-- If all digits were taken, they were added up to the number that they make. -/
theorem ofDigitChars_of_takeDigits {bound : Nat} (ds : List Char) (m : Nat)
    (h : (takeDigits bound m ds).2 = []) :
    (takeDigits bound m ds).1 = Nat.ofDigitChars 10 ds m := by
  induction ds generalizing m with
  | nil => rfl
  | cons c ds ih =>
    rw [takeDigits] at h ⊢
    split
    · rename_i hle
      rw [if_pos hle] at h
      rw [ih _ h, Nat.ofDigitChars_cons]
      rfl
    · rename_i hle
      rw [if_neg hle] at h
      contradiction

/-- **No other number is taken for the one that its digits make.** Whatever is read is other than a
natural number, or the text is digits and nothing else, and the number is theirs. -/
theorem yields_number_unsigned (n : Numeral) {rest left : List Char} {x : Number}
    (hrest : EndsValue rest) (h : number false (n.unsigned ++ rest) = .ok (x, left)) :
    x.IsOther ∨ n.fraction = none ∧ n.exponent = none
      ∧ x = .integer (Nat.ofDigitChars 10 n.whole.chars 0) := by
  rw [number_unsigned n hrest, afterWhole, Reading.bind_ok (rest_eq _)] at h
  generalize htext : n.tail ++ rest = text at h
  split at h
  · exact .inl ((Yields.bind fun _ => yields_fractionPart _ _ _) _ _ _ h)
  · exact .inl ((Yields.bind fun _ => yields_exponentPart _ _ _) _ _ _ h)
  · exact .inl ((Yields.bind fun _ => yields_exponentPart _ _ _) _ _ _ h)
  · -- What follows the digits is no point and no letter of an exponent. So there is no fraction,
    -- and then no exponent either.
    rename_i hpoint hsmall hlarge
    split at h
    · rename_i hempty
      obtain ⟨rfl, -⟩ := Prod.mk.inj (Except.ok.inj h)
      rw [ofDigitChars_of_takeDigits _ _ (List.isEmpty_iff.1 hempty)]
      have hfraction : n.fraction = none := by
        cases hfraction : n.fraction with
        | none => rfl
        | some ds =>
          rw [Numeral.tail, hfraction] at htext
          exact absurd htext.symm (hpoint _)
      have hexponent : n.exponent = none := by
        cases hexponent : n.exponent with
        | none => rfl
        | some e =>
          simp only [Numeral.tail, hfraction, Numeral.exponentChars, hexponent] at htext
          have hletter := e.letter_mem
          simp only [List.mem_cons, List.not_mem_nil, or_false] at hletter
          rcases hletter with hletter | hletter <;> rw [hletter] at htext
          · exact absurd htext.symm (hsmall _)
          · exact absurd htext.symm (hlarge _)
      exact .inr ⟨hfraction, hexponent, rfl⟩
    · exact .inl (yields_floatOf _ _ _ _ _ _ h)

/-! ## Passing over values

A value that nobody asks for is passed over by three readers that call each other: one for values,
one for the items of arrays and one for the members of objects. They share one measure of fuel, and
each law is used by the others for smaller pieces of the text, so the three are proved together.

The readers look past blanks before they look at anything, and where exactly the blanks are dropped
differs between the first item of a row and the later ones. `skipItemsWithin_blanks` and
`skipMembersWithin_blanks` say that it makes no difference. -/

/-- Blanks may stand behind a value, with whatever may stand there after them. -/
theorem endsValue_gap {gap : List Char} (hgap : AllBlank gap) {rest : List Char}
    (hrest : EndsValue rest) : EndsValue (gap ++ rest) := by
  cases gap with
  | nil => exact hrest
  | cons c gap =>
    have hc := hgap c List.mem_cons_self
    simp only [isBlank, Bool.or_eq_true, decide_eq_true_eq] at hc
    rcases hc with ((rfl | rfl) | rfl) | rfl <;> exact endsValue_cons (by decide) _

variable {blanks rest : List Char}

/-- A value that is no array or object is passed over at once, by the reader that finds out what
sort of value it is. -/
theorem skipStart_scalar (hblanks : AllBlank blanks) (hrest : EndsValue rest) {w : Written}
    (harray : ∀ items closing, w ≠ .array items closing)
    (hobject : ∀ members closing, w ≠ .object members closing) :
    skipStart (blanks ++ (w.chars ++ rest)) = .ok (.done, rest) := by
  have hpeek : ∀ {c : Char} {cs : List Char}, isBlank c = false →
      peek .endInValue (blanks ++ c :: cs) = .ok (c, c :: cs) :=
    fun hc => peek_blanks hblanks hc _ _
  rw [skipStart]
  cases w with
  | null =>
    rw [Written.chars]
    exact Reading.bind_ok (hpeek rfl)
  | bool b =>
    cases b <;> rw [Written.chars] <;> exact Reading.bind_ok (hpeek rfl)
  | number n =>
    have hskip := skipNumber_unsigned n hrest
    rw [Written.chars, Numeral.chars]
    cases n.negative with
    | true =>
      refine (Reading.bind_ok (hpeek rfl)).trans ?_
      exact (Reading.bind_ok (advance_cons _ _)).trans (Reading.bind_ok hskip)
    | false =>
      -- The digit that is looked at is not taken away, as it is a part of the number.
      obtain ⟨c, cs, hcons, hc⟩ := n.whole.exists_cons
      have htext : n.unsigned ++ rest = c :: (cs ++ n.tail ++ rest) := by
        simp [Numeral.unsigned, hcons]
      rw [htext] at hskip
      simp only [Bool.false_eq_true, if_false, List.nil_append, htext]
      rw [Reading.bind_ok (hpeek (startsValue_of_isDigit hc).1)]
      split <;> first | exact absurd hc (by decide) | skip
      simp only [hc, if_true]
      exact Reading.bind_ok hskip
  | text s =>
    rw [Written.chars]
    refine (Reading.bind_ok (hpeek rfl)).trans ?_
    exact (Reading.bind_ok (advance_cons _ _)).trans (Reading.bind_ok (skipString_inner s rest))
  | array items closing => exact absurd rfl (harray items closing)
  | object members closing => exact absurd rfl (hobject members closing)

/-- The next character behind a gap. -/
theorem peek_gap (gap : Gap) {c : Char} (hc : isBlank c = false) (atEnd : Problem)
    (rest : List Char) : peek atEnd (gap.chars ++ c :: rest) = .ok (c, c :: rest) :=
  peek_blanks gap.allBlank hc atEnd rest

/-- The next character behind two gaps, as they stand between the last item of a row and the closing
bracket. -/
theorem peek_gaps (gap gap' : Gap) {c : Char} (hc : isBlank c = false) (atEnd : Problem)
    (rest : List Char) :
    peek atEnd (gap.chars ++ (gap'.chars ++ c :: rest)) = .ok (c, c :: rest) := by
  rw [← List.append_assoc]
  refine peek_blanks (fun d hd => ?_) hc atEnd rest
  rcases List.mem_append.1 hd with hd | hd
  · exact gap.allBlank d hd
  · exact gap'.allBlank d hd

/-- What follows an item of an array may stand behind a value: a comma with the next item, or the
closing bracket. -/
theorem endsValue_moreItems (gap : Gap) (items : List WrittenItem) (closing : Gap)
    (rest : List Char) :
    EndsValue (gap.chars ++ (moreItems items ++ (closing.chars ++ ']' :: rest))) := by
  refine endsValue_gap gap.allBlank ?_
  cases items with
  | nil => exact endsValue_gap closing.allBlank (endsValue_cons (by decide) rest)
  | cons item items => exact endsValue_cons (by decide) _

/-- The same for the members of an object. -/
theorem endsValue_moreMembers (gap : Gap) (members : List WrittenMember) (closing : Gap)
    (rest : List Char) :
    EndsValue (gap.chars ++ (moreMembers members ++ (closing.chars ++ '\x7d' :: rest))) := by
  refine endsValue_gap gap.allBlank ?_
  cases members with
  | nil => exact endsValue_gap closing.allBlank (endsValue_cons (by decide) rest)
  | cons m members => exact endsValue_cons (by decide) _

/-- A row of items starts with a gap and a value, so the reader does not take it for the end of the
array. -/
theorem exists_start_items (item : WrittenItem) (items : List WrittenItem) (tail : List Char) :
    ∃ c cs, itemsChars (item :: items) ++ tail = item.before.chars ++ c :: cs
      ∧ StartsValue c := by
  obtain ⟨c, cs, hcons, hc⟩ := item.value.exists_start
  exact ⟨c, _, by rw [itemsChars_cons, hcons]; simp; rfl, hc⟩

section

variable {blanks : List Char} (hblanks : AllBlank blanks) (cs : List Char)
include hblanks

/-- Blanks are nothing to a look at the next character. -/
theorem peek_blanks_append (atEnd : Problem) : peek atEnd (blanks ++ cs) = peek atEnd cs := by
  have hskip : skipBlank (blanks ++ cs) = skipBlank cs := by
    rw [skipBlank, skipBlank, List.dropWhile_append_of_pos hblanks]
  rw [peek]
  simp only [bind, StateT.bind, hskip]

/-- Blanks before the first item do not matter. -/
theorem skipItemsWithin_blanks (fuel : Nat) :
    skipItemsWithin (fuel + 2) (blanks ++ cs) = skipItemsWithin (fuel + 2) cs := by
  simp only [skipItemsWithin, skipValueWithin, skipStart, bind, StateT.bind,
    peek_blanks_append hblanks]

/-- Blanks before the first member do not matter. -/
theorem skipMembersWithin_blanks (fuel : Nat) :
    skipMembersWithin (fuel + 1) (blanks ++ cs) = skipMembersWithin (fuel + 1) cs := by
  simp only [skipMembersWithin, skipKey, bind, StateT.bind, peek_blanks_append hblanks]

end

/-- A key is passed over with the colon behind it. -/
theorem skipKey_member (m : WrittenMember) (tail : List Char) :
    skipKey (m.before.chars ++ '"' :: m.inner tail)
      = .ok ((), m.afterColon.chars ++ (m.value.chars ++ tail)) := by
  rw [skipKey, WrittenMember.inner]
  refine (Reading.bind_ok (peek_gap m.before (by decide) _ _)).trans ?_
  refine (Reading.bind_ok (advance_cons _ _)).trans ?_
  refine (Reading.bind_ok (skipString_inner m.key _)).trans ?_
  exact (Reading.bind_ok (peek_gap m.beforeColon (by decide) _ _)).trans (advance_cons _ _)

/-- Where there is something written, there is fuel. -/
theorem exists_fuel {w : Written} {fuel : Nat} (h : 2 * w.chars.length ≤ fuel) :
    ∃ f, fuel = f + 1 := by
  have hpos := w.length_chars_pos
  exact ⟨fuel - 1, by omega⟩

mutual

/-- **A value of any kind is passed over.** The recursion is on what is written, and the bound on
the fuel goes down with it: to enter an array costs one unit and gives up two brackets. -/
theorem skipValueWithin_chars : ∀ (w : Written) (fuel : Nat) (blanks rest : List Char),
    2 * w.chars.length ≤ fuel → AllBlank blanks → EndsValue rest →
    skipValueWithin fuel (blanks ++ (w.chars ++ rest)) = .ok ((), rest)
  | .array items closing => fun fuel blanks rest hfuel hblanks hrest => by
    simp only [Written.chars, List.length_cons, List.length_append, List.length_nil] at hfuel
    obtain ⟨fuel, rfl⟩ : ∃ f, fuel = f + 1 := ⟨fuel - 1, by omega⟩
    have htext : (Written.array items closing).chars ++ rest
        = '[' :: (itemsChars items ++ (closing.chars ++ ']' :: rest)) := by simp [Written.chars]
    have hstart : skipStart (blanks ++ '[' :: (itemsChars items ++ (closing.chars ++ ']' :: rest)))
        = .ok (.array, itemsChars items ++ (closing.chars ++ ']' :: rest)) :=
      Reading.bind_ok (peek_blanks hblanks (by decide) _ _)
    rw [htext, skipValueWithin, Reading.bind_ok hstart]
    simp only
    cases items with
    | nil =>
      refine (Reading.bind_ok (peek_gap closing (by decide) _ _)).trans ?_
      exact advance_cons _ _
    | cons item items =>
      -- The blanks before an item are passed over before it is seen that there is one.
      obtain ⟨fuel, rfl⟩ : ∃ f, fuel = f + 2 := ⟨fuel - 2, by omega⟩
      have hskip := skipItemsWithin_chars (item :: items) (fuel + 2) closing rest
        (List.cons_ne_nil _ _) (by omega)
      obtain ⟨c, cs, hcons, hblank, hclose⟩ :=
        exists_start_items item items (closing.chars ++ ']' :: rest)
      rw [hcons, skipItemsWithin_blanks item.before.allBlank] at hskip
      rw [hcons, Reading.bind_ok (peek_gap item.before hblank _ _)]
      split
      · exact absurd (by decide) hclose
      · exact hskip
  | .object members closing => fun fuel blanks rest hfuel hblanks hrest => by
    simp only [Written.chars, List.length_cons, List.length_append, List.length_nil] at hfuel
    obtain ⟨fuel, rfl⟩ : ∃ f, fuel = f + 1 := ⟨fuel - 1, by omega⟩
    have htext : (Written.object members closing).chars ++ rest
        = '\x7b' :: (membersChars members ++ (closing.chars ++ '\x7d' :: rest)) := by
      simp [Written.chars]
    have hstart : skipStart (blanks ++ '\x7b' :: (membersChars members
        ++ (closing.chars ++ '\x7d' :: rest)))
          = .ok (.object, membersChars members ++ (closing.chars ++ '\x7d' :: rest)) :=
      Reading.bind_ok (peek_blanks hblanks (by decide) _ _)
    rw [htext, skipValueWithin, Reading.bind_ok hstart]
    simp only
    cases members with
    | nil =>
      refine (Reading.bind_ok (peek_gap closing (by decide) _ _)).trans ?_
      exact advance_cons _ _
    | cons m members =>
      obtain ⟨fuel, rfl⟩ : ∃ f, fuel = f + 1 := ⟨fuel - 1, by omega⟩
      have hskip := skipMembersWithin_chars (m :: members) (fuel + 1) closing rest
        (List.cons_ne_nil _ _) (by omega)
      rw [membersChars_cons, skipMembersWithin_blanks m.before.allBlank] at hskip
      rw [membersChars_cons, Reading.bind_ok (peek_gap m.before (by decide) _ _)]
      exact hskip
  | .null | .bool _ | .number _ | .text _ => fun fuel blanks rest hfuel hblanks hrest => by
    obtain ⟨fuel, rfl⟩ := exists_fuel hfuel
    rw [skipValueWithin, Reading.bind_ok (skipStart_scalar hblanks hrest
      (fun _ _ => by simp) fun _ _ => by simp)]
    rfl

/-- The items of an array, of which there is one at least, with the bracket that closes it. -/
theorem skipItemsWithin_chars : ∀ (items : List WrittenItem) (fuel : Nat) (closing : Gap)
    (rest : List Char), items ≠ [] → 2 * (itemsChars items).length + 1 ≤ fuel →
    skipItemsWithin fuel (itemsChars items ++ (closing.chars ++ ']' :: rest)) = .ok ((), rest)
  | [] => fun fuel closing rest hitems => absurd rfl hitems
  | ⟨before, value, after⟩ :: items => fun fuel closing rest hitems hfuel => by
    have hrest := skipItemsWithin_chars items
    rw [itemsChars_cons] at hfuel ⊢
    simp only [List.length_append] at hfuel
    obtain ⟨fuel, rfl⟩ : ∃ f, fuel = f + 1 := ⟨fuel - 1, by omega⟩
    have hvalue := skipValueWithin_chars value fuel _ _ (by omega) before.allBlank
      (endsValue_moreItems after items closing rest)
    simp only [List.append_assoc]
    rw [skipItemsWithin, Reading.bind_ok hvalue]
    cases items with
    | nil =>
      refine (Reading.bind_ok (peek_gaps after closing (by decide) _ _)).trans ?_
      exact advance_cons _ _
    | cons next items =>
      simp only [moreItems, List.length_cons] at hfuel
      refine (Reading.bind_ok (peek_gap after (by decide) _ _)).trans ?_
      refine (Reading.bind_ok (advance_cons _ _)).trans ?_
      exact hrest fuel closing rest (List.cons_ne_nil _ _) (by omega)

/-- The members of an object, of which there is one at least, with the brace that closes it. -/
theorem skipMembersWithin_chars : ∀ (members : List WrittenMember) (fuel : Nat) (closing : Gap)
    (rest : List Char), members ≠ [] → 2 * (membersChars members).length + 1 ≤ fuel →
    skipMembersWithin fuel (membersChars members ++ (closing.chars ++ '\x7d' :: rest))
      = .ok ((), rest)
  | [] => fun fuel closing rest hmembers => absurd rfl hmembers
  | ⟨before, key, beforeColon, afterColon, value, after⟩ :: members =>
    fun fuel closing rest hmembers hfuel => by
    have hrest := skipMembersWithin_chars members
    have hlength := congrArg List.length
      (membersChars_cons ⟨before, key, beforeColon, afterColon, value, after⟩ members [])
    simp only [WrittenMember.inner, List.length_append, List.length_cons, List.length_nil]
      at hlength
    obtain ⟨fuel, rfl⟩ : ∃ f, fuel = f + 1 := ⟨fuel - 1, by omega⟩
    have hvalue := skipValueWithin_chars value fuel _ _ (by omega) afterColon.allBlank
      (endsValue_moreMembers after members closing rest)
    rw [membersChars_cons, skipMembersWithin, Reading.bind_ok (skipKey_member _ _),
      Reading.bind_ok hvalue]
    cases members with
    | nil =>
      refine (Reading.bind_ok (peek_gaps after closing (by decide) _ _)).trans ?_
      exact advance_cons _ _
    | cons next members =>
      simp only [moreMembers, List.length_cons] at hlength
      refine (Reading.bind_ok (peek_gap after (by decide) _ _)).trans ?_
      refine (Reading.bind_ok (advance_cons _ _)).trans ?_
      exact hrest fuel closing rest (List.cons_ne_nil _ _) (by omega)

end

/-- A value is passed over with the blanks before it. The fuel is measured by the text that is left,
which is longer than the value, so there is enough of it. -/
theorem skipValue_chars (w : Written) {blanks rest : List Char} (hblanks : AllBlank blanks)
    (hrest : EndsValue rest) : skipValue (blanks ++ (w.chars ++ rest)) = .ok ((), rest) := by
  rw [skipValue, Reading.bind_ok (rest_eq _)]
  refine skipValueWithin_chars w _ blanks rest ?_ hblanks hrest
  simp only [List.length_append]
  omega

end Reader

end Json
end ModuleMerge
