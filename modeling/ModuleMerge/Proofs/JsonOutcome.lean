import ModuleMerge.Proofs.JsonReading

/-!
# What codecs make of written values

A codec gives the value that was written, or it refuses. Which of the two, and what value, depends
on what is written and not on how: blanks before the text do not matter, nor what stands behind it,
as long as it may follow a value.

A reader works on characters: it takes as many as it needs and leaves the rest. What it does is
therefore a fact about a text with anything behind it, and laws of this kind are stated for every
reader that there is. Here they are put into a form in which they can be used member by member, when
a value is part of a larger one. All that may go wrong in a text is in the word refused; which fault
is reported, and where, is not followed here.

That a written value is refused has to be shown as well as that one is read, since the theorems on
payloads say which of them are rejected. For most values that is settled by the first character: a
codec looks at it before anything else, and gives up if it is none that a value of its own kind may
start with (`refuses_of_start`). Numbers need more. A literal may start as one of a natural number
does and go on with a fraction, or be too large, and then it is read to its end and the number is
turned down afterwards.

* `Reader.Reads` and `Reader.Refuses` are the two outcomes, and `Reader.ReadsAs` is both.
* `Codec.readsAs_natural32`, `Codec.readsAs_textAs` and `Codec.readsAs_bool` give the outcomes of
  single values.
* `Codec.decode_of_reads` and `Codec.exists_error_of_refuses` give those of whole texts.
-/

set_option autoImplicit false

namespace ModuleMerge
namespace Json

/-! ## Outcomes -/

namespace Reader

variable {α β : Type} {r : Reader α} {text : List Char} {a : α}

/-- A reader gives a value from its text, whatever blanks stand before the text and whatever stands
behind it of what may follow a value. -/
def Reads (r : Reader α) (text : List Char) (a : α) : Prop :=
  ∀ blanks rest, AllBlank blanks → EndsValue rest → r (blanks ++ (text ++ rest)) = .ok (a, rest)

/-- A reader gives no value from a text, whatever stands around it. -/
def Refuses (r : Reader α) (text : List Char) : Prop :=
  ∀ blanks rest, AllBlank blanks → EndsValue rest →
    ∃ fault, r (blanks ++ (text ++ rest)) = .error fault

/-- What a reader makes of a text. -/
def ReadsAs (r : Reader α) (text : List Char) : Option α → Prop
  | some a => r.Reads text a
  | none => r.Refuses text

/-- What is read may be changed by a function. -/
theorem Reads.map (h : r.Reads text a) (f : α → β) : Reads (f <$> r) text (f a) :=
  fun blanks rest hblanks hrest => Reading.map_ok (h blanks rest hblanks hrest)

/-- Without blanks before it. -/
theorem Reads.here (h : r.Reads text a) {rest : List Char} (hrest : EndsValue rest) :
    r (text ++ rest) = .ok (a, rest) :=
  h [] rest allBlank_nil hrest

theorem Refuses.here (h : r.Refuses text) {rest : List Char} (hrest : EndsValue rest) :
    ∃ fault, r (text ++ rest) = .error fault :=
  h [] rest allBlank_nil hrest

theorem Refuses.map (h : r.Refuses text) (f : α → β) : Refuses (f <$> r) text := by
  intro blanks rest hblanks hrest
  obtain ⟨fault, hread⟩ := h blanks rest hblanks hrest
  exact ⟨fault, Reading.map_error hread⟩

/-- What is made of a value that was read is what was made of the value. One text behind it is
enough to find out what the value is; that it is the same for all of them is the injectivity. -/
theorem Reads.of_map {f : α → β} (hf : Function.Injective f) {b : β} (h : Reads (f <$> r) text b) :
    ∃ a, b = f a ∧ r.Reads text a := by
  have hof : ∀ blanks rest, AllBlank blanks → EndsValue rest →
      ∃ a, b = f a ∧ r (blanks ++ (text ++ rest)) = .ok (a, rest) := by
    intro blanks rest hblanks hrest
    obtain ⟨a, hb, hread⟩ := Reading.exists_of_map_ok (h blanks rest hblanks hrest)
    exact ⟨a, hb.symm, hread⟩
  obtain ⟨a, rfl, -⟩ := hof [] [] allBlank_nil endsValue_nil
  refine ⟨a, rfl, fun blanks rest hblanks hrest => ?_⟩
  obtain ⟨a', heq, hread⟩ := hof blanks rest hblanks hrest
  rw [hread, hf heq]

/-- A reader with one outcome or the other reads or refuses. -/
theorem ReadsAs.reads_or_refuses {a? : Option α} (h : r.ReadsAs text a?) :
    (∃ a, r.Reads text a) ∨ r.Refuses text := by
  cases a? with
  | none => exact .inr h
  | some a => exact .inl ⟨a, h⟩

/-- The outcome, from what the reader does with its fault forgotten. -/
theorem readsAs_of_toOption {a? : Option α}
    (h : ∀ blanks rest, AllBlank blanks → EndsValue rest →
      (r (blanks ++ (text ++ rest))).toOption = a?.map fun a => (a, rest)) :
    r.ReadsAs text a? := by
  cases a? with
  | none =>
    intro blanks rest hblanks hrest
    have hread := h blanks rest hblanks hrest
    cases hr : r (blanks ++ (text ++ rest)) with
    | ok result => simp [hr, Except.toOption] at hread
    | error fault => exact ⟨fault, rfl⟩
  | some a =>
    intro blanks rest hblanks hrest
    have hread := h blanks rest hblanks hrest
    cases hr : r (blanks ++ (text ++ rest)) with
    | ok result =>
      rw [hr] at hread
      exact congrArg _ (Option.some.inj hread)
    | error fault => simp [hr, Except.toOption] at hread

/-- And back, without blanks before the text. -/
theorem ReadsAs.toOption {a? : Option α} (h : r.ReadsAs text a?) {rest : List Char}
    (hrest : EndsValue rest) : (r (text ++ rest)).toOption = a?.map fun a => (a, rest) := by
  cases a? with
  | none =>
    obtain ⟨fault, hread⟩ := Refuses.here h hrest
    rw [hread]
    rfl
  | some a => rw [Reads.here h hrest]; rfl

/-- What is read is the outcome. -/
theorem ReadsAs.reads_iff {a? : Option α} (h : r.ReadsAs text a?) :
    r.Reads text a ↔ a? = some a := by
  constructor
  · intro hread
    have houtcome := h.toOption endsValue_nil
    rw [hread.here endsValue_nil] at houtcome
    obtain ⟨b, rfl, heq⟩ := Option.map_eq_some_iff.1 houtcome.symm
    rw [(Prod.mk.inj heq).1]
  · rintro rfl
    exact h

/-- Where nothing is given there is a fault. -/
theorem Yields.exists_error (h : Yields (fun _ : α => False) r) (cs : List Char) :
    ∃ fault, r cs = .error fault := by
  cases hr : r cs with
  | ok result => exact absurd hr (h cs result.1 result.2)
  | error fault => exact ⟨fault, rfl⟩

end Reader

/-! ## What a value starts with

No two kinds of values start with the same character, so the first one tells the kind. -/

/-- The characters that a value may start with, by its kind. -/
def Written.mayStart : Written → Char → Bool
  | .null, c => c = 'n'
  | .bool b, c => c = if b then 't' else 'f'
  | .number _, c => c = '-' || c.isDigit
  | .text _, c => c = '"'
  | .array _ _, c => c = '['
  | .object _ _, c => c = '\x7b'

/-- A value starts with a character that its kind may start with. -/
theorem Written.mayStart_of_chars {w : Written} {c : Char} {cs : List Char}
    (h : w.chars = c :: cs) : w.mayStart c = true := by
  cases w with
  | number n =>
    rw [chars, Numeral.chars] at h
    cases hsign : n.negative with
    | true =>
      obtain rfl : '-' = c := by simpa [hsign] using (List.cons.inj (by simpa [hsign] using h)).1
      rfl
    | false =>
      obtain ⟨d, ds, hcons, hd⟩ := n.whole.exists_cons
      obtain rfl : d = c := by simpa [hsign, Numeral.unsigned, hcons] using congrArg List.head? h
      simp [mayStart, hd]
  | bool b =>
    cases b <;> rw [chars] at h <;> simp [mayStart, ← (List.cons.inj h).1]
  | null => rw [chars] at h; simp [mayStart, ← (List.cons.inj h).1]
  | text s => rw [chars, Literal.chars] at h; simp [mayStart, ← (List.cons.inj h).1]
  | array items closing => rw [chars] at h; simp [mayStart, ← (List.cons.inj h).1]
  | object members closing => rw [chars] at h; simp [mayStart, ← (List.cons.inj h).1]

/-- Only `null` starts with an `n`. -/
theorem Written.eq_null_of_mayStart {w : Written} (h : w.mayStart 'n' = true) : w = .null := by
  cases w with
  | null => rfl
  | bool b => cases b <;> contradiction
  | number _ | text _ | array _ _ | object _ _ => contradiction

/-- A value is refused by what it starts with. -/
theorem Reader.refuses_of_start {α : Type} {r : Reader α} {w : Written}
    (h : ∀ c cs blanks, AllBlank blanks → Reader.isBlank c = false → w.mayStart c = true →
      ∃ fault, r (blanks ++ c :: cs) = .error fault) : r.Refuses w.chars := by
  intro blanks rest hblanks hrest
  obtain ⟨c, cs, hcons, hblank, -⟩ := w.exists_start
  rw [hcons, List.cons_append]
  exact h c _ blanks hblanks hblank (Written.mayStart_of_chars hcons)

namespace Codec

open Reader Reading

/-! ## Single values

Each law has one part for all kinds of values that are refused by how they start, and one for the
kind that the codec is made for. -/

/-- The natural number of 32 bits that a value is the plain literal of. -/
def natural32? (w : Written) : Option Nat :=
  w.natural?.filter (· < bound32)

/-- It is none if the value is no literal of a natural number, or one of too large a number. -/
theorem natural32?_eq_none {w : Written} (h : ∀ n, w.natural? = some n → ¬ n < bound32) :
    natural32? w = none :=
  Option.filter_eq_none_iff.2 fun n hn => by simpa using h n hn

/-- What is no natural number of 32 bits is not taken for one. -/
theorem exists_error_narrow32 {x : Number}
    (hx : x.IsOther ∨ ∃ n : Nat, x = .integer n ∧ ¬ n < bound32) (cs : List Char) :
    ∃ fault, narrow32 x cs = .error fault := by
  cases x with
  | float x => exact ⟨_, rfl⟩
  | integer m =>
    have hm : ¬ (0 ≤ m ∧ m.toNat < bound32) := by
      rintro ⟨hnonneg, hlt⟩
      rcases hx with hother | ⟨n, hn, hbound⟩
      · exact absurd hnonneg (Int.not_le.2 hother)
      · obtain rfl := Number.integer.inj hn
        exact hbound (by simpa using hlt)
    exact ⟨_, by rw [narrow32, if_neg hm]; rfl⟩

section

variable {n : Numeral} {blanks rest : List Char} (hblanks : AllBlank blanks)
include hblanks

/-- With a sign in front the rest is read as a negative number. -/
theorem natural32_signed (hsign : n.negative = true) :
    natural32.read (blanks ++ ((Written.number n).chars ++ rest))
      = (number true >>= narrow32) (n.unsigned ++ rest) := by
  have htext : (Written.number n).chars ++ rest = '-' :: (n.unsigned ++ rest) := by
    simp [Written.chars, Numeral.chars, hsign]
  rw [htext]
  refine (bind_ok (peek_blanks hblanks (by decide) _ _)).trans ?_
  exact bind_ok (advance_cons _ _)

/-- Without one the first digit decides that a number is read, and is read with the others. -/
theorem natural32_unsigned (hsign : n.negative = false) :
    natural32.read (blanks ++ ((Written.number n).chars ++ rest))
      = (number false >>= narrow32) (n.unsigned ++ rest) := by
  obtain ⟨c, cs, hcons, hc⟩ := n.whole.exists_cons
  have htext : (Written.number n).chars ++ rest = n.unsigned ++ rest := by
    simp [Written.chars, Numeral.chars, hsign]
  have hstart : n.unsigned ++ rest = c :: (cs ++ (n.tail ++ rest)) := by
    simp [Numeral.unsigned, hcons]
  have hne : c ≠ '-' := by
    rintro rfl
    exact absurd hc (by decide)
  rw [htext, hstart]
  refine (bind_ok (peek_blanks hblanks (startsValue_of_isDigit hc).1 _ _)).trans ?_
  simp only [if_neg hne, hc, if_true]

end

/-- Whatever is read as a number, it is refused if it is not a natural one of 32 bits. -/
theorem exists_error_of_yields {r : Reader Number} {text : List Char}
    (h : ∀ x left, r text = .ok (x, left) →
      x.IsOther ∨ ∃ n : Nat, x = .integer n ∧ ¬ n < bound32) :
    ∃ fault, (r >>= narrow32) text = .error fault := by
  cases hread : r text with
  | error fault => exact ⟨fault, bind_error hread⟩
  | ok result =>
    rw [bind_ok (a := result.1) (t := result.2) hread]
    exact exists_error_narrow32 (h _ _ hread) _

/-- A literal of something else is refused: with a sign it is a negative number or none at all, and
without one it has a fraction or an exponent, or is a natural number out of bounds. -/
theorem refuses_natural32 {n : Numeral} (h : ∀ value, n.natural? = some value → ¬ value < bound32) :
    natural32.read.Refuses (Written.number n).chars := by
  intro blanks rest hblanks hrest
  cases hsign : n.negative with
  | true =>
    rw [natural32_signed hblanks hsign]
    exact exists_error_of_yields fun x left hread => .inl (yields_number_negative _ _ _ hread)
  | false =>
    rw [natural32_unsigned hblanks hsign]
    refine exists_error_of_yields fun x left hread => ?_
    rcases yields_number_unsigned n hrest hread with hother | ⟨hfraction, hexponent, rfl⟩
    · exact .inl hother
    · exact .inr ⟨_, rfl, h _ (by simp [Numeral.natural?, hsign, hfraction, hexponent])⟩

/-- A plain literal within bounds is read as the number it is for. -/
theorem reads_natural32 {n : Numeral} {value : Nat} (hvalue : n.natural? = some value)
    (hbound : value < bound32) : natural32.read.Reads (Written.number n).chars value := by
  intro blanks rest hblanks hrest
  have hmax : bound32 ≤ 0xFFFFFFFFFFFFFFFF := by decide
  rw [natural32_unsigned hblanks (Numeral.eq_of_natural? hvalue).1,
    bind_ok (number_plain hvalue (Nat.le_trans (Nat.le_of_lt hbound) hmax) hrest), narrow32,
    if_pos ⟨Int.natCast_nonneg value, by simpa using hbound⟩]
  rfl

/-- **Numbers of 32 bits**: their literals are read, and everything else is refused. -/
theorem readsAs_natural32 (w : Written) : natural32.read.ReadsAs w.chars (natural32? w) := by
  -- What starts with neither a sign nor a digit is of the wrong type.
  have hother : (∀ c, w.mayStart c = true → c ≠ '-' ∧ c.isDigit = false) →
      natural32.read.Refuses w.chars := by
    refine fun hstart => refuses_of_start fun c cs blanks hblanks hblank hc => ?_
    obtain ⟨hsign, hdigit⟩ := hstart c hc
    obtain ⟨fault, hfault⟩ := (yields_mismatch (α := Nat) "u32").exists_error (c :: cs)
    refine ⟨fault, (bind_ok (peek_blanks hblanks hblank _ _)).trans ?_⟩
    simp only [if_neg hsign, hdigit, Bool.false_eq_true, if_false]
    exact hfault
  have hnone : w.natural? = none → natural32? w = none :=
    fun hw => natural32?_eq_none fun n hn => absurd (hw.symm.trans hn) (by simp)
  cases w with
  | number n =>
    by_cases h : ∃ value, n.natural? = some value ∧ value < bound32
    · obtain ⟨value, hvalue, hbound⟩ := h
      have hsome : natural32? (.number n) = some value :=
        Option.filter_eq_some_iff.2 ⟨hvalue, decide_eq_true hbound⟩
      rw [hsome]
      exact reads_natural32 hvalue hbound
    · have hno : ∀ value, n.natural? = some value → ¬ value < bound32 :=
        fun value hvalue hbound => h ⟨value, hvalue, hbound⟩
      rw [natural32?_eq_none (w := .number n) hno]
      exact refuses_natural32 hno
  | bool b =>
    rw [hnone rfl]
    exact hother fun c hc => by cases b <;> cases of_decide_eq_true hc <;> decide
  | null | text _ | array _ _ | object _ _ =>
    rw [hnone rfl]
    exact hother fun c hc => by cases of_decide_eq_true hc; decide

/-- **Strings** are read as what they stand for, and everything else is refused. -/
theorem readsAs_textAs (wanted : String) (w : Written) :
    (textAs wanted).read.ReadsAs w.chars w.text? := by
  have hother : w.mayStart '"' = false → (textAs wanted).read.Refuses w.chars := by
    refine fun hstart => refuses_of_start fun c cs blanks hblanks hblank hc => ?_
    obtain ⟨fault, hfault⟩ := (yields_mismatch (α := String) wanted).exists_error (c :: cs)
    refine ⟨fault, (bind_ok (peek_blanks hblanks hblank _ _)).trans ?_⟩
    split
    · exact absurd (hstart.symm.trans hc) Bool.false_ne_true
    · exact hfault
  cases w with
  | text s =>
    refine readsAs_of_toOption fun blanks rest hblanks hrest => ?_
    -- Behind the quote it is up to the string whether its escapes stand for anything.
    have hread : (textAs wanted).read (blanks ++ ((Written.text s).chars ++ rest))
        = string (s.inner ++ rest) := by
      rw [Written.chars, Literal.chars, List.cons_append]
      exact (bind_ok (peek_blanks hblanks (by decide) _ _)).trans (bind_ok (advance_cons _ _))
    rw [hread, toOption_string]
    rfl
  | bool b => cases b <;> exact hother rfl
  | null | number _ | array _ _ | object _ _ => exact hother rfl

/-- **Truth values** are read, and everything else is refused. -/
theorem readsAs_bool (w : Written) : bool.read.ReadsAs w.chars w.bool? := by
  have hother : (w.mayStart 't' = false ∧ w.mayStart 'f' = false) →
      bool.read.Refuses w.chars := by
    refine fun hstart => refuses_of_start fun c cs blanks hblanks hblank hc => ?_
    obtain ⟨fault, hfault⟩ := (yields_mismatch (α := Bool) "a boolean").exists_error (c :: cs)
    refine ⟨fault, (bind_ok (peek_blanks hblanks hblank _ _)).trans ?_⟩
    split
    · exact absurd (hstart.1.symm.trans hc) Bool.false_ne_true
    · exact absurd (hstart.2.symm.trans hc) Bool.false_ne_true
    · exact hfault
  cases w with
  | bool b =>
    intro blanks rest hblanks hrest
    cases b <;> rw [Written.chars] <;>
      exact (bind_ok (peek_blanks hblanks (by decide) _ _)).trans rfl
  | null | number _ | text _ | array _ _ | object _ _ => exact hother ⟨rfl, rfl⟩

/-- The readers that build on strings go on with what a string stands for. -/
theorem string_inner {s : Literal} {text : String} (h : s.text? = some text) (rest : List Char) :
    string (s.inner ++ rest) = .ok (text, rest) := by
  have hread := toOption_string s rest
  cases hr : string (s.inner ++ rest) with
  | error fault => simp [hr, h, Except.toOption] at hread
  | ok result =>
    rw [hr, h] at hread
    exact congrArg _ (Option.some.inj hread)

/-- **The cases of a type** are read by their names. The case that is found under the name has to be
the one meant, which is so if no two of them have the same name. -/
theorem reads_enumeration {α : Type} {cases : List α} {name : α → String} {a : α} {s : Literal}
    (htext : s.text? = some (name a)) (hfind : cases.find? (name · = name a) = some a) :
    (enumeration cases name).read.Reads (Written.text s).chars a := by
  intro blanks rest hblanks hrest
  rw [Written.chars, Literal.chars, List.cons_append]
  refine (bind_ok (peek_blanks hblanks (by decide) _ _)).trans ?_
  refine (bind_ok (advance_cons _ _)).trans ((bind_ok (string_inner htext rest)).trans ?_)
  rw [caseNamed, hfind]
  rfl

/-! ## Optional values and whole texts

An optional value looks for the `n` of `null` and hands everything else on, so it takes what starts
with another character as the value's own codec does. A whole text may have blanks at both ends. -/

section

variable {α : Type} {codec : Codec α}

/-- `null` stands for no value. -/
theorem reads_nullable_null : codec.nullable.read.Reads Written.null.chars none := by
  intro blanks rest hblanks hrest
  rw [Written.chars]
  refine (bind_ok (skipBlank_blanks hblanks (by decide) _)).trans ?_
  exact (bind_ok (rest_eq _)).trans (bind_ok (advance_cons _ _))

/-- Anything else is read as the value that has to be there. -/
theorem reads_nullable {w : Written} {a : α} (h : codec.read.Reads w.chars a) (hnull : w ≠ .null) :
    codec.nullable.read.Reads w.chars (some a) := by
  intro blanks rest hblanks hrest
  obtain ⟨c, cs, hcons, hblank, -⟩ := w.exists_start
  -- It starts with no `n`, or it would be `null`.
  have hn : c ≠ 'n' := by
    rintro rfl
    exact hnull (Written.eq_null_of_mayStart (Written.mayStart_of_chars hcons))
  have hread := h.here hrest
  rw [hcons, List.cons_append] at hread ⊢
  simp only [nullable]
  rw [bind_ok (skipBlank_blanks hblanks hblank _), bind_ok (rest_eq _)]
  generalize hleft : c :: (cs ++ rest) = left at hread
  split
  · exact absurd (List.cons.inj hleft).1 hn
  · exact map_ok hread

/-- **A whole text** holds the value that is written in it between blanks. -/
theorem decode_of_reads {text before after : List Char} {a : α} (h : codec.read.Reads text a)
    (hbefore : AllBlank before) (hafter : AllBlank after) :
    codec.decode (String.ofList (before ++ (text ++ after))) = .ok a := by
  have hends : EndsValue after := by simpa using endsValue_gap hafter endsValue_nil
  have hskip : skipBlank after = .ok ((), []) := by
    rw [skipBlank, ← List.append_nil after, dropWhile_append hafter fun c hc => by simp at hc]
  have hall : codec.readAll.run (before ++ (text ++ after)) = .ok (a, []) := by
    show codec.readAll _ = _
    rw [readAll, bind_ok (h before after hbefore hends), bind_ok hskip]
    rfl
  rw [decode, String.toList_ofList, hall]

/-- A text is an error if its value is. -/
theorem exists_error_decode {text : String}
    (h : ∃ fault, codec.read text.toList = .error fault) :
    ∃ error, codec.decode text = .error error := by
  obtain ⟨fault, hread⟩ := h
  have hall : codec.readAll.run text.toList = .error fault := bind_error hread
  exact ⟨.ofFault text.toList fault, by rw [decode, hall]⟩

/-- A whole text whose value is refused is an error. -/
theorem exists_error_of_refuses {text before after : List Char} (h : codec.read.Refuses text)
    (hbefore : AllBlank before) (hafter : AllBlank after) :
    ∃ error, codec.decode (String.ofList (before ++ (text ++ after))) = .error error := by
  have hends : EndsValue after := by simpa using endsValue_gap hafter endsValue_nil
  exact exists_error_decode (by simpa using h before after hbefore hends)

end

end Codec

end Json
end ModuleMerge
