/-!
# Shortest decimal digits

The fewest decimal digits that still read back as a given binary floating-point number, and of
these the ones nearest to it.

* `Binary` is a positive number m · 2^q, with the interval of reals that round to it.
* `Binary.shortest` gives the digits and where the point stands.
* `FloatLayout` says how digits are laid out as text, and `FloatLayout.text` does it.
-/

set_option autoImplicit false

namespace ModuleMerge
namespace Decimal

/-! ## Binary numbers -/

/-- The number `mantissa` · 2 ^ `exponent`, both bounds of whose rounding interval are half a unit
away, save the lower one where the numbers below are twice as close. -/
structure Binary where
  mantissa : Nat
  exponent : Int
  closeBelow : Bool
  deriving DecidableEq, Repr

/-- A positive fraction. -/
structure Fraction where
  num : Nat
  den : Nat
  deriving DecidableEq, Repr

namespace Fraction

/-- The fraction `n` · 2 ^ `e`. -/
def scaled (n : Nat) (e : Int) : Fraction :=
  if e < 0 then ⟨n, Nat.pow 2 e.natAbs⟩ else ⟨n * Nat.pow 2 e.natAbs, 1⟩

/-- The fraction times ten to the power `e`. -/
def shift (f : Fraction) (e : Int) : Fraction :=
  if e < 0 then ⟨f.num, f.den * Nat.pow 10 e.natAbs⟩
  else ⟨f.num * Nat.pow 10 e.natAbs, f.den⟩

/-- Whether a fraction is below another one. -/
def less (f g : Fraction) : Bool :=
  f.num * g.den < g.num * f.den

/-- How many decimal places a number that is not below one has before the point. -/
def placesAbove : Nat → Nat → Nat
  | 0, _ => 0
  | fuel + 1, n => if n = 0 then 0 else placesAbove fuel (n / 10) + 1

/-- How many times a fraction can be made ten times as large and stay below one. -/
def zerosBelow : Nat → Fraction → Nat
  | 0, _ => 0
  | fuel + 1, f => if 10 * f.num < f.den then zerosBelow fuel ⟨10 * f.num, f.den⟩ + 1 else 0

/-- The `k` with 10 ^ (`k` - 1) ≤ `f` < 10 ^ `k`. -/
def magnitude (f : Fraction) : Int :=
  if f.den ≤ f.num then placesAbove (f.num / f.den) (f.num / f.den)
  else -(zerosBelow f.den f : Int)

end Fraction

/-! ## Digits -/

/-- A decimal number 0.d₁d₂d₃… · 10 ^ `point`, its digits as one natural number. -/
structure Digits where
  digits : List Char
  point : Int
  deriving DecidableEq, Repr

namespace Binary

/-- The value of a number. -/
def value (b : Binary) : Fraction :=
  .scaled (4 * b.mantissa) (b.exponent - 2)

/-- Whether a fraction rounds to the number: it lies between the bounds, or on one of them and the
mantissa is even. -/
def reads (b : Binary) (f : Fraction) : Bool :=
  let below := Fraction.scaled (4 * b.mantissa - (if b.closeBelow then 1 else 2)) (b.exponent - 2)
  let above := Fraction.scaled (4 * b.mantissa + 2) (b.exponent - 2)
  if b.mantissa % 2 = 0 then !f.less below && !above.less f
  else below.less f && f.less above

/-- The nearest number of a grid of steps 10 ^ `step` that reads back as the number, if one of the
two neighbours on the grid does; of two equally near ones the even one. -/
def onGrid? (b : Binary) (step : Int) : Option Nat :=
  let scaled := b.value.shift (-step)
  let low := scaled.num / scaled.den
  let rest := 2 * (scaled.num % scaled.den)
  let lowReads := b.reads (Fraction.shift ⟨low, 1⟩ step)
  let highReads := b.reads (Fraction.shift ⟨low + 1, 1⟩ step)
  match lowReads, highReads with
  | true, true =>
    if rest < scaled.den then some low
    else if scaled.den < rest then some (low + 1)
    else if low % 2 = 0 then some low else some (low + 1)
  | true, false => some low
  | false, true => some (low + 1)
  | false, false => none

/-- Tries 1, 2, 3 and more digits until some read back. -/
def search (b : Binary) (magnitude : Int) (count : Nat) : Nat → Digits
  | 0 => ⟨[], magnitude⟩
  | fuel + 1 =>
    match b.onGrid? (magnitude - count) with
    | some n =>
      let digits := Nat.toDigits 10 n
      ⟨digits, magnitude + ((digits.length : Int) - count)⟩
    | none => b.search magnitude (count + 1) fuel

/-- The fewest digits that read back as the number. Seventeen always do for 53 bits. -/
def shortest (b : Binary) : Digits :=
  b.search b.value.magnitude 1 17

end Binary

/-- The parts of a finite number other than zero. -/
def Binary.ofBits (bits : UInt64) : Binary :=
  let fraction := (bits % 0x10000000000000).toNat
  let biased := (bits >>> 52 &&& 0x7FF).toNat
  if biased = 0 then ⟨fraction, -1074, false⟩
  else ⟨fraction + 0x10000000000000, (biased : Int) - 1075, fraction = 0 && 1 < biased⟩

/-! ## Layout -/

/-- How the digits of a number are laid out. -/
structure FloatLayout where
  /-- The exponents of the first digit between which the point is placed among the digits. -/
  positionalFrom : Int
  positionalTo : Int
  /-- What follows the digits of a number without a part after the point. -/
  wholeEnd : String
  /-- What comes before an exponent, by its sign. -/
  positiveMark : String
  negativeMark : String
  /-- The least number of digits of an exponent. -/
  exponentDigits : Nat

namespace FloatLayout

/-- A natural number with zeros before it up to a number of digits. -/
def padded (width n : Nat) : List Char :=
  let digits := Nat.toDigits 10 n
  List.replicate (width - digits.length) '0' ++ digits

/-- The text of a positive number by its digits. -/
def digitsText (layout : FloatLayout) (d : Digits) : String :=
  let digits := (d.digits.reverse.dropWhile (· = '0')).reverse
  let first := d.point - 1
  if layout.positionalFrom ≤ first ∧ first ≤ layout.positionalTo then
    if d.point ≤ 0 then
      "0." ++ String.ofList (List.replicate d.point.natAbs '0' ++ digits)
    else
      let whole := d.point.natAbs
      if digits.length ≤ whole then
        String.ofList (digits ++ List.replicate (whole - digits.length) '0') ++ layout.wholeEnd
      else
        String.ofList (digits.take whole) ++ "." ++ String.ofList (digits.drop whole)
  else
    let mantissa :=
      match digits with
      | [] => ""
      | [c] => String.ofList [c]
      | c :: cs => String.ofList (c :: '.' :: cs)
    let mark := if first < 0 then layout.negativeMark else layout.positiveMark
    mantissa ++ mark ++ String.ofList (padded layout.exponentDigits first.natAbs)

/-- The text of a finite number. -/
def text (layout : FloatLayout) (x : Float) : String :=
  let bits := x.toBits
  let sign := if bits >>> 63 = 1 then "-" else ""
  let magnitude := bits &&& 0x7FFFFFFFFFFFFFFF
  if magnitude = 0 then sign ++ "0" ++ layout.wholeEnd
  else sign ++ layout.digitsText (Binary.ofBits magnitude).shortest

end FloatLayout

end Decimal
end ModuleMerge
