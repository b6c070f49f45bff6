/-!
# Dates

Days of the Gregorian calendar, continued to all years before and after.

* `daysInMonth` is the length of a month, and `Date` a day that is one of its month.
* `Date.next` and `Date.previous` step from one day to its neighbours.
-/

set_option autoImplicit false

namespace ModuleMerge
namespace Calendar

/-- Whether a year has a day more: every fourth, but of the hundreds only every fourth. -/
def isLeapYear (year : Int) : Bool :=
  year % 4 = 0 && (year % 100 ≠ 0 || year % 400 = 0)

/-- The number of days of a month. -/
def daysInMonth (year : Int) (month : Nat) : Nat :=
  match month with
  | 4 | 6 | 9 | 11 => 30
  | 2 => if isLeapYear year then 29 else 28
  | _ => 31

theorem daysInMonth_pos (year : Int) (month : Nat) : 1 ≤ daysInMonth year month := by
  unfold daysInMonth
  split
  · decide
  · decide
  · decide
  · decide
  · split <;> decide
  · decide

/-- A day of the calendar. -/
@[ext] structure Date where
  year : Int
  month : Nat
  day : Nat
  month_pos : 1 ≤ month
  month_le : month ≤ 12
  day_pos : 1 ≤ day
  day_le : day ≤ daysInMonth year month
  deriving DecidableEq, Repr

namespace Date

/-- The day with these numbers, if there is one. -/
def ofNumbers? (year : Int) (month day : Nat) : Option Date :=
  if h : (1 ≤ month ∧ month ≤ 12) ∧ 1 ≤ day ∧ day ≤ daysInMonth year month then
    some ⟨year, month, day, h.1.1, h.1.2, h.2.1, h.2.2⟩
  else
    none

/-- The day after a day. -/
def next (d : Date) : Date :=
  if h : d.day < daysInMonth d.year d.month then
    { d with day := d.day + 1, day_pos := by omega, day_le := h }
  else if m : d.month < 12 then
    ⟨d.year, d.month + 1, 1, by omega, m, by omega, daysInMonth_pos ..⟩
  else
    ⟨d.year + 1, 1, 1, by omega, by omega, by omega, daysInMonth_pos ..⟩

/-- The day before a day. -/
def previous (d : Date) : Date :=
  if h : 1 < d.day then
    { d with
      day := d.day - 1
      day_pos := by omega
      day_le := Nat.le_trans (Nat.sub_le ..) d.day_le }
  else if m : 1 < d.month then
    ⟨d.year, d.month - 1, daysInMonth d.year (d.month - 1), by omega,
      Nat.le_trans (Nat.sub_le ..) d.month_le, daysInMonth_pos .., Nat.le_refl _⟩
  else
    ⟨d.year - 1, 12, 31, by omega, by omega, by omega, Nat.le_refl _⟩

/-! ## Small facts -/

@[simp] theorem ofNumbers?_self (d : Date) : ofNumbers? d.year d.month d.day = some d := by
  simp [ofNumbers?, d.month_pos, d.month_le, d.day_pos, d.day_le]

end Date

end Calendar
end ModuleMerge
