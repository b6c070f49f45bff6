import ModuleMerge.Calendar.Rfc3339
import ModuleMerge.Proofs.Steps

/-!
# Reading back the text of an instant

An instant is written with its year first and universal time at the end, and the readers of the
parts read the parts one after another. No part is longer than the text says: a month has two
digits, so it may be read whatever follows, but a year of five digits and a fraction end only where
no digit follows.

The readers take more than is ever written, among it blanks before every number, single digits and
offsets from universal time. So it has to be seen that they take a written text in no other way.
Where blanks might be passed over there is a digit or a mark, and where a sign might stand there is
one only if it was written. At the end the offset is none, so the time of day is taken as it is, and
the date is checked once more: it has to be a day of the calendar, which it is, and in a year that
can be named, which has to be assumed.

The law holds for every instant that a report can have. A second may be the sixtieth, years may lie
before the year 0 or have five digits and more, and the fraction is cut to the digits that it needs,
in steps of three.

* `TimeReader.digits_append` reads a row of digits, and `TimeReader.number_decimals` a number of
  two.
* `TimeReader.year_yearText`, `TimeReader.date_print` and `TimeReader.clock_print` read the parts.
* `Instant.ofText_text` reads an instant, if its year has days that can be named.
-/

set_option autoImplicit false

namespace ModuleMerge
namespace Calendar

open Reading

/-! ## Digits

Numbers are written by their last digits, so many of them as the place asks for. That is the whole
number as long as it is less than the power of ten. -/

theorem isDigit_digitChar : ∀ d < 10, (Nat.digitChar d).isDigit = true := by
  decide

theorem digitsValue_digitChar : ∀ d < 10, TimeReader.digitsValue [Nat.digitChar d] = d := by
  decide

/-- One more digit behind the others. -/
theorem digitsValue_append (ds : List Char) (c : Char) :
    TimeReader.digitsValue (ds ++ [c])
      = 10 * TimeReader.digitsValue ds + TimeReader.digitsValue [c] := by
  simp [TimeReader.digitsValue]

theorem isDigit_decimals {width n : Nat} : ∀ c ∈ decimals width n, c.isDigit = true :=
  Text.forall_mem_fixedDigits (by decide) isDigit_digitChar

/-- The last digits of a number are those of its remainder. -/
theorem digitsValue_decimals (width n : Nat) :
    TimeReader.digitsValue (decimals width n) = n % Nat.pow 10 width := by
  induction width generalizing n with
  | zero => exact (Nat.mod_one n).symm
  | succ width ih =>
    show TimeReader.digitsValue (decimals width (n / 10) ++ [Nat.digitChar (n % 10)]) = _
    rw [digitsValue_append, ih, digitsValue_digitChar _ (Nat.mod_lt n (by decide))]
    show _ = n % (Nat.pow 10 width * 10)
    rw [Nat.mul_comm (Nat.pow 10 width), Nat.mod_mul, Nat.add_comm]

theorem length_decimals (width n : Nat) : (decimals width n).length = width :=
  Text.length_fixedDigits 10 width n

theorem decimals_ne_nil (width n : Nat) (h : 0 < width) : decimals width n ≠ [] :=
  List.ne_nil_of_length_pos ((length_decimals width n).symm ▸ h)

theorem fourDigits_ne_nil (n : Nat) : fourDigits n ≠ [] := by
  rw [fourDigits]
  split
  · exact decimals_ne_nil 4 n (by decide)
  · exact Nat.toDigits_ne_nil

theorem isDigit_fourDigits {n : Nat} : ∀ c ∈ fourDigits n, c.isDigit = true := by
  rw [fourDigits]
  split
  · exact isDigit_decimals
  · exact fun c hc => Nat.isDigit_of_mem_toDigits (by decide) (by decide) hc

/-- A number with four digits or more is written as a whole, whether or not it was filled up. -/
theorem digitsValue_fourDigits (n : Nat) : TimeReader.digitsValue (fourDigits n) = n := by
  rw [fourDigits]
  split
  · rw [digitsValue_decimals]
    exact Nat.mod_eq_of_lt ‹_›
  · exact Nat.ofDigitChars_ten_toDigits

/-! ## Reading digits

A reader of digits stops for one of two reasons: it has as many as it wants, or there is no further
one. Months, days and times of day end for the first reason, years with a sign and short fractions
for the second. `digits_append` leaves it open which one it is. -/

namespace TimeReader

/-- A row of digits is read up to its end, which is where as many are read as may be, or where no
digit follows. -/
theorem digits_append {atMost : Option Nat} {run rest : List Char} (hne : run ≠ [])
    (hrun : ∀ c ∈ run, c.isDigit = true) (hlength : ∀ n ∈ atMost, run.length ≤ n)
    (hstop : atMost = some run.length ∨ ∀ c ∈ rest.head?, c.isDigit = false) :
    digits atMost (run ++ rest) = .ok (run, rest) := by
  obtain ⟨c, cs, hcons⟩ := List.exists_cons_of_ne_nil hne
  have hc : c.isDigit = true := hrun c (hcons ▸ List.mem_cons_self)
  have hbound : run.length ≤ atMost.getD (run ++ rest).length := by
    cases atMost with
    | none => simp
    | some n => exact hlength n rfl
  have htake : ((run ++ rest).take (atMost.getD (run ++ rest).length)).takeWhile Char.isDigit
      = run := by
    rw [List.take_append, List.take_of_length_le hbound]
    refine takeWhile_append hrun ?_
    rcases hstop with rfl | hstop
    · simp
    · intro d hd
      exact hstop d (by cases rest <;> simp_all [List.head?_take])
  have hdrop : (run ++ rest).drop run.length = rest := List.drop_left
  rw [hcons, List.cons_append] at htake hdrop ⊢
  simp only [digits, hc, if_true, htake]
  rw [hdrop]

/-- No digit is a blank. -/
theorem isBlank_of_isDigit {c : Char} (h : c.isDigit = true) : Text.isBlank c = false := by
  have hrange : 48 ≤ c.toNat ∧ c.toNat ≤ 57 := by
    simpa [Char.isDigit, UInt32.le_iff_toNat_le] using h
  simp only [Text.isBlank, Text.blankRanges, List.any_cons, List.any_nil, Bool.or_eq_false_iff,
    Bool.and_eq_false_iff, decide_eq_false_iff_not, and_true]
  omega

/-- There are no blanks to pass over before what is no blank. -/
theorem skipBlank_of_head {cs : List Char} (h : ∀ c ∈ cs.head?, Text.isBlank c = false) :
    skipBlank cs = .ok ((), cs) := by
  rw [skipBlank, Text.trimStart]
  cases cs with
  | nil => rfl
  | cons c cs => rw [List.dropWhile_cons_of_neg (by simp [h c rfl])]

/-- There are no blanks to pass over before digits. -/
theorem skipBlank_digits {run rest : List Char} (hne : run ≠ [])
    (hrun : ∀ c ∈ run, c.isDigit = true) : skipBlank (run ++ rest) = .ok ((), run ++ rest) := by
  obtain ⟨c, cs, rfl⟩ := List.exists_cons_of_ne_nil hne
  refine skipBlank_of_head fun d hd => ?_
  obtain rfl : c = d := Option.some.inj hd
  exact isBlank_of_isDigit (hrun c List.mem_cons_self)

/-- **A number of two digits** is read back, whatever follows. -/
theorem number_decimals {least most n : Nat} (hleast : least ≤ n) (hmost : n ≤ most)
    (h : n < 100) (rest : List Char) :
    number least most (decimals 2 n ++ rest) = .ok (n, rest) := by
  have hne := decimals_ne_nil 2 n (by decide)
  have hdigits : digits (some 2) (decimals 2 n ++ rest) = .ok (decimals 2 n, rest) :=
    digits_append hne isDigit_decimals
      (fun m hm => Nat.le_of_eq ((length_decimals 2 n).trans (Option.some.inj hm)))
      (.inl (by rw [length_decimals]))
  rw [number, bind_ok (skipBlank_digits hne isDigit_decimals), bind_ok hdigits,
    digitsValue_decimals]
  rw [show n % Nat.pow 10 2 = n from Nat.mod_eq_of_lt h, if_pos ⟨hleast, hmost⟩]
  rfl

theorem skipBlank_cons {c : Char} (hc : Text.isBlank c = false) (rest : List Char) :
    skipBlank (c :: rest) = .ok ((), c :: rest) :=
  skipBlank_of_head fun _ hd => Option.some.inj hd ▸ hc

theorem literal_cons (c : Char) (rest : List Char) : literal c (c :: rest) = .ok ((), rest) := by
  rw [literal, bind_ok (show next (c :: rest) = .ok (c, rest) from rfl), if_pos rfl]
  rfl

/-! ## Parts -/

/-- **A year** is read back before the hyphen that ends it. There are three ways to write one: with
a minus, with four digits, and with a plus and five digits or more. The first and the last are read
up to the hyphen, and the second is read digit by digit, so it must not start with a sign. -/
theorem year_yearText {y : Int} (hy : yearBounds.1 ≤ y ∧ y ≤ yearBounds.2) (rest : List Char) :
    year (yearText y ++ '-' :: rest) = .ok (y, '-' :: rest) := by
  have hstop : ∀ c ∈ ('-' :: rest).head?, c.isDigit = false := fun c hc => Option.some.inj hc ▸ rfl
  have hread : ∀ n, digits none (fourDigits n ++ '-' :: rest) = .ok (fourDigits n, '-' :: rest) :=
    fun n => digits_append (fourDigits_ne_nil n) isDigit_fourDigits (fun m hm => by simp at hm)
      (.inr hstop)
  cases y with
  | negSucc n =>
    rw [year, yearText, List.cons_append, bind_ok (skipBlank_cons (by decide) _)]
    refine (bind_ok (a := -(digitsValue (fourDigits (n + 1)) : Int)) (t := '-' :: rest)
      ?_).trans ?_
    · exact map_ok (f := fun ds => -(digitsValue ds : Int)) (hread (n + 1))
    · rw [digitsValue_fourDigits]
      exact congrFun (if_pos hy) _
  | ofNat n =>
    have hvalue : ((digitsValue (fourDigits n) : Nat) : Int) = Int.ofNat n := by
      rw [digitsValue_fourDigits]
      rfl
    rw [yearText]
    split
    · have hdigits : digits (some 4) (fourDigits n ++ '-' :: rest)
          = .ok (fourDigits n, '-' :: rest) := by
        rw [fourDigits, if_pos ‹_›]
        exact digits_append (decimals_ne_nil 4 n (by decide)) isDigit_decimals
          (fun m hm => Nat.le_of_eq ((length_decimals 4 n).trans (Option.some.inj hm)))
          (.inl (by rw [length_decimals]))
      rw [year, bind_ok (skipBlank_digits (fourDigits_ne_nil n) isDigit_fourDigits)]
      refine (bind_ok (a := (digitsValue (fourDigits n) : Int)) (t := '-' :: rest) ?_).trans ?_
      · -- The year starts with a digit, so not with a sign.
        obtain ⟨c, cs, hcons⟩ := List.exists_cons_of_ne_nil (fourDigits_ne_nil n)
        have hc : c.isDigit = true := isDigit_fourDigits c (hcons ▸ List.mem_cons_self)
        have hne : ∀ d tail, d.isDigit = false → fourDigits n ++ '-' :: rest ≠ d :: tail := by
          rintro d tail hd htail
          rw [hcons, List.cons_append] at htail
          rw [(List.cons.inj htail).1, hd] at hc
          exact Bool.false_ne_true hc
        split
        · exact absurd ‹_› (hne '-' _ rfl)
        · exact absurd ‹_› (hne '+' _ rfl)
        · exact map_ok (f := fun ds => (digitsValue ds : Int)) hdigits
      · rw [hvalue]
        exact congrFun (if_pos hy) _
    · rw [year, List.cons_append, bind_ok (skipBlank_cons (by decide) _)]
      refine (bind_ok (a := (digitsValue (fourDigits n) : Int)) (t := '-' :: rest) ?_).trans ?_
      · exact map_ok (f := fun ds => (digitsValue ds : Int)) (hread n)
      · rw [hvalue]
        exact congrFun (if_pos hy) _

theorem daysInMonth_le (year : Int) (month : Nat) : daysInMonth year month ≤ 31 := by
  unfold daysInMonth
  split
  case h_5 =>
    split
    · decide
    · decide
  all_goals decide

/-- **A date** is read back, whatever follows. The numbers of its month and day are within the
bounds that the readers check, by the fields of the date. -/
theorem date_print (d : Date) (hyear : yearBounds.1 ≤ d.year ∧ d.year ≤ yearBounds.2)
    (rest : List Char) :
    date (yearText d.year ++ '-' :: (decimals 2 d.month ++ '-' :: (decimals 2 d.day ++ rest)))
      = .ok ((d.year, d.month, d.day), rest) := by
  have hmonth := d.month_le
  have hday : d.day ≤ 31 := Nat.le_trans d.day_le (daysInMonth_le d.year d.month)
  rw [date, bind_ok (year_yearText hyear _), bind_ok (skipBlank_cons (by decide) _),
    bind_ok (literal_cons _ _), bind_ok (number_decimals d.month_pos hmonth (by omega) _),
    bind_ok (skipBlank_cons (by decide) _), bind_ok (literal_cons _ _),
    bind_ok (number_decimals d.day_pos hday (by omega) _)]
  rfl

/-- **The fraction of a second** is read back before what is no digit. It is left out where it is
zero, and then nothing that follows may be taken for its point. -/
theorem fraction_fractionText (nano : Fin 1000000000) {rest : List Char}
    (hrest : ∀ c ∈ rest.head?, c.isDigit = false ∧ c ≠ '.') :
    fraction (fractionText nano.val ++ rest) = .ok (nano, rest) := by
  have hstop : ∀ c ∈ rest.head?, c.isDigit = false := fun c hc => (hrest c hc).1
  have hwrapped : ∀ n, n = nano.val → wrapped 999999999 n = nano := by
    rintro n rfl
    exact Fin.ext (Nat.mod_eq_of_lt nano.isLt)
  -- A fraction of `width` digits, which count in steps of a power of ten. The three widths that are
  -- written differ in nothing else.
  have hread : ∀ width n, 0 < width → width ≤ 9 → n < Nat.pow 10 width →
      n * Nat.pow 10 (9 - width) = nano.val →
      fraction ('.' :: decimals width n ++ rest) = .ok (nano, rest) := by
    intro width n hpos hwidth hn hvalue
    have hdigits : digits (some 9) (decimals width n ++ rest) = .ok (decimals width n, rest) := by
      refine digits_append (List.ne_nil_of_length_pos (by rwa [length_decimals])) isDigit_decimals
        (fun m hm => ?_) (.inr hstop)
      rwa [length_decimals, ← Option.some.inj hm]
    have hdrop : rest.dropWhile Char.isDigit = rest :=
      dropWhile_append (fun c hc => absurd hc List.not_mem_nil) hstop
    rw [List.cons_append, fraction]
    simp only [hdigits, bind, Except.bind, digitsValue_decimals, length_decimals, hdrop]
    rw [show n % Nat.pow 10 width = n from Nat.mod_eq_of_lt hn, hwrapped _ hvalue]
  have hlt := nano.isLt
  rw [fractionText]
  split
  · rw [List.nil_append, fraction.eq_def]
    split
    · exact absurd rfl (hrest '.' rfl).2
    · rw [hwrapped 0 (Eq.symm ‹_›)]
  split
  · exact hread 3 _ (by decide) (by decide) (by show _ < 1000; omega)
      (by show _ * 1000000 = _; omega)
  split
  · exact hread 6 _ (by decide) (by decide) (by show _ < 1000000; omega)
      (by show _ * 1000 = _; omega)
  · exact hread 9 _ (by decide) (by decide) hlt (Nat.mul_one _)

/-- **A time of day** is read back before what neither goes on with its fraction nor is a blank. -/
theorem clock_print (c : Clock) {rest : List Char}
    (hrest : ∀ d ∈ rest.head?, d.isDigit = false ∧ d ≠ '.')
    (hblank : ∀ d ∈ rest.head?, Text.isBlank d = false) :
    clock (decimals 2 c.hour.val ++ ':' :: (decimals 2 c.minute.val
        ++ ':' :: (decimals 2 c.second.val ++ (fractionText c.nano.val ++ rest))))
      = .ok (c, rest) := by
  obtain ⟨hour, minute, second, nano⟩ := c
  have hhour := hour.isLt
  have hminute := minute.isLt
  have hsecond := second.isLt
  rw [clock, bind_ok (number_decimals (Nat.zero_le _) (by omega) (by omega) _),
    bind_ok (skipBlank_cons (by decide) _), bind_ok (literal_cons _ _),
    bind_ok (number_decimals (Nat.zero_le _) (by omega) (by omega) _),
    bind_ok (skipBlank_cons (by decide) _), bind_ok (literal_cons _ _),
    bind_ok (number_decimals (Nat.zero_le _) (by omega) (by omega) _),
    bind_ok (fraction_fractionText nano hrest), bind_ok (skipBlank_of_head hblank),
    show wrapped 23 hour.val = hour from Fin.ext (Nat.mod_eq_of_lt hhour),
    show wrapped 59 minute.val = minute from Fin.ext (Nat.mod_eq_of_lt hminute),
    show wrapped 60 second.val = second from Fin.ext (Nat.mod_eq_of_lt hsecond)]
  rfl

/-! ## Instants

What was read is put together at the end: the date is one of the calendar, and the offset is taken
off the time of day. -/

theorem hasDays_iff {y : Int} : hasDays y = true ↔ dayBounds.1 ≤ y ∧ y ≤ dayBounds.2 := by
  simp [hasDays]

/-- Universal time does not run ahead of itself. -/
theorem ofLocal_zero (d : Date) (c : Clock) : Instant.ofLocal d c 0 = ⟨d, c⟩ := by
  obtain ⟨hour, minute, second, nano⟩ := c
  have hhour := hour.isLt
  have hminute := minute.isLt
  rw [Instant.ofLocal, dif_pos (by simp only [Clock.minuteOfDay]; omega)]
  simp only [Clock.minuteOfDay, Clock.atMinute, Instant.mk.injEq, Clock.mk.injEq, true_and,
    and_true]
  constructor <;> apply Fin.ext <;> simp only <;> omega

/-- The parts of an instant in universal time make the instant. -/
theorem assemble_self (t : Instant) (h : hasDays t.date.year = true) :
    assemble (t.date.year, t.date.month, t.date.day) t.clock 0 = .ok t := by
  simp only [assemble, Date.ofNumbers?_self, h, ofLocal_zero]
  rfl

end TimeReader

/-- **The text of an instant is read back**, if its year has days that can be named. The last mark
is the letter for universal time, behind which nothing is left. -/
theorem Instant.ofText_text (t : Instant) (h : TimeReader.hasDays t.date.year = true) :
    Instant.ofText t.text = .ok t := by
  have hyear : TimeReader.yearBounds.1 ≤ t.date.year ∧ t.date.year ≤ TimeReader.yearBounds.2 := by
    have hdays := TimeReader.hasDays_iff.1 h
    exact ⟨Int.le_trans (by decide) hdays.1, Int.le_trans hdays.2 (by decide)⟩
  have hprint : t.text.toList = yearText t.date.year ++ '-' :: (decimals 2 t.date.month
      ++ '-' :: (decimals 2 t.date.day ++ 'T' :: (decimals 2 t.clock.hour.val
        ++ ':' :: (decimals 2 t.clock.minute.val ++ ':' :: (decimals 2 t.clock.second.val
          ++ (fractionText t.clock.nano.val ++ ['Z'])))))) := by
    simp [Instant.text, Instant.print]
  have hzone : ∀ d ∈ ['Z'].head?, d = 'Z' := fun d hd => (Option.some.inj hd).symm
  have hread : TimeReader.instant.run t.text.toList = .ok (t, []) := by
    show TimeReader.instant t.text.toList = _
    rw [hprint, TimeReader.instant, bind_ok (TimeReader.date_print t.date hyear _),
      bind_ok (show TimeReader.separator ('T' :: _) = .ok ((), _) from rfl),
      bind_ok (TimeReader.clock_print t.clock (fun d hd => by rw [hzone d hd]; decide)
        fun d hd => by rw [hzone d hd]; decide),
      bind_ok (show TimeReader.offset ['Z'] = .ok (0, []) from rfl),
      bind_ok (show TimeReader.finish [] = .ok ((), []) from rfl),
      TimeReader.assemble_self t h]
    rfl
  rw [Instant.ofText, hread]

end Calendar
end ModuleMerge
