import ModuleMerge.Calendar.Date

/-!
# Instants

A point of universal time to the billionth of a second.

* `Instant` is a date with a time of day. A second may be the sixtieth, which is a leap second.
* `Instant.ofLocal` is the instant at which clocks that run ahead show a given time.
* `Instant.ofUnixTime` is the instant so long after the start of 1970.
-/

set_option autoImplicit false

namespace ModuleMerge
namespace Calendar

/-- A time of a day. -/
structure Clock where
  hour : Fin 24
  minute : Fin 60
  second : Fin 61
  /-- Billionths of a second. -/
  nano : Fin 1000000000
  deriving DecidableEq, Repr

/-- A point of universal time. -/
structure Instant where
  date : Date
  clock : Clock
  deriving DecidableEq, Repr

/-! ## Clocks that run ahead -/

/-- The minute of the day, counted from its start. -/
def Clock.minuteOfDay (c : Clock) : Nat :=
  c.hour.val * 60 + c.minute.val

/-- The clock at a minute of its day. -/
def Clock.atMinute (c : Clock) (minute : Nat) (h : minute < 1440) : Clock :=
  { c with
    hour := ⟨minute / 60, by omega⟩
    minute := ⟨minute % 60, Nat.mod_lt _ (by omega)⟩ }

/-- The instant at which a clock that is `ahead` minutes before universal time shows a time. The
clocks of the world differ by less than a day. -/
def Instant.ofLocal (date : Date) (clock : Clock) (ahead : Int) : Instant :=
  let minute : Int := clock.minuteOfDay - ahead
  if h : 0 ≤ minute ∧ minute < 1440 then
    ⟨date, clock.atMinute minute.toNat (by omega)⟩
  else if minute < 0 then
    ⟨date.previous, clock.atMinute ((minute + 1440).toNat % 1440) (Nat.mod_lt _ (by omega))⟩
  else
    ⟨date.next, clock.atMinute (minute.toNat % 1440) (Nat.mod_lt _ (by omega))⟩

/-! ## Counted time -/

/-- The first day of 1970. -/
def Date.unixStart : Date :=
  ⟨1970, 1, 1, by decide, by decide, by decide, by decide⟩

/-- The day so many days after another. -/
def Date.after (d : Date) (days : Nat) : Date :=
  Nat.repeat Date.next days d

/-- The instant so many seconds and billionths of a second after the start of 1970, leap seconds
not counted. -/
def Instant.ofUnixTime (seconds nanos : Nat) : Instant where
  date := Date.unixStart.after (seconds / 86400)
  clock :=
    { hour := Fin.ofNat _ (seconds / 3600)
      minute := Fin.ofNat _ (seconds / 60)
      second := Fin.ofNat _ (seconds % 60)
      nano := Fin.ofNat _ nanos }

end Calendar
end ModuleMerge
