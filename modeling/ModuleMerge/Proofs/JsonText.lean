import ModuleMerge.Json.Record
import ModuleMerge.Proofs.Steps

/-!
# Where values start and end

A reader meets the text of a value in the middle of a larger one: there may be blanks before it, and
behind it comes whatever separates or closes. What a reader stops at depends on what comes next: a
string ends at its closing quote whatever follows, but a number ends only where no further digit,
point or exponent does.

* `peek_blanks` finds the next character.
* `EndsValue` is what may follow a value, and `StartsValue` what it may start with.
* `takeDigits_eq` reads the digits of a number.
-/

set_option autoImplicit false

namespace ModuleMerge
namespace Json

/-! ## Readers -/

theorem Reader.advance_cons (c : Char) (rest : List Char) :
    Reader.advance (c :: rest) = .ok ((), rest) := rfl

theorem Reader.rest_eq (cs : List Char) : Reader.rest cs = .ok (cs, cs) := rfl

/-- There is nothing in a text but blanks. -/
def AllBlank (cs : List Char) : Prop :=
  ∀ c ∈ cs, Reader.isBlank c = true

theorem allBlank_nil : AllBlank [] :=
  fun _ h => absurd h List.not_mem_nil

theorem skipBlank_blanks {blanks : List Char} (hblanks : AllBlank blanks) {c : Char}
    (hc : Reader.isBlank c = false) (rest : List Char) :
    Reader.skipBlank (blanks ++ c :: rest) = .ok ((), c :: rest) := by
  rw [Reader.skipBlank, List.dropWhile_append_of_pos hblanks,
    List.dropWhile_cons_of_neg (by simp [hc])]

/-- The next character behind blanks. -/
theorem peek_blanks {blanks : List Char} (hblanks : AllBlank blanks) {c : Char}
    (hc : Reader.isBlank c = false) (atEnd : Problem) (rest : List Char) :
    Reader.peek atEnd (blanks ++ c :: rest) = .ok (c, c :: rest) := by
  rw [Reader.peek, Reading.bind_ok (skipBlank_blanks hblanks hc rest)]
  rfl

theorem peek_cons {c : Char} (hc : Reader.isBlank c = false) (atEnd : Problem)
    (rest : List Char) : Reader.peek atEnd (c :: rest) = .ok (c, c :: rest) :=
  peek_blanks allBlank_nil hc atEnd rest

/-! ## Numbers -/

/-- What may follow a written value: nothing, a blank, or what stands behind the values of arrays
and objects. -/
def EndsValue (rest : List Char) : Prop :=
  ∀ c ∈ rest.head?, c ∈ [',', ']', '\x7d', '\n', ' ', '\t', '\r']

theorem endsValue_nil : EndsValue [] :=
  fun _ h => by simp at h

theorem endsValue_cons {c : Char} (h : c ∈ [',', ']', '\x7d', '\n', ' ', '\t', '\r'])
    (rest : List Char) : EndsValue (c :: rest) :=
  fun _ hd => Option.some.inj hd ▸ h

/-- A number does not go on behind its end. -/
theorem EndsValue.head_not_isDigit {rest : List Char} (h : EndsValue rest) :
    ∀ c ∈ rest.head?, c.isDigit = false := by
  intro c hc
  have hc := h c hc
  simp only [List.mem_cons, List.not_mem_nil, or_false] at hc
  rcases hc with rfl | rfl | rfl | rfl | rfl | rfl | rfl <;> rfl

theorem le_ofDigitChars (ds : List Char) (m : Nat) : m ≤ Nat.ofDigitChars 10 ds m := by
  induction ds generalizing m with
  | nil => exact Nat.le_refl m
  | cons c ds ih =>
    rw [Nat.ofDigitChars_cons]
    exact Nat.le_trans (by omega) (ih _)

/-- Digits are read as long as the number stays within bounds. -/
theorem takeDigits_eq {bound : Nat} (ds : List Char) (m : Nat)
    (h : Nat.ofDigitChars 10 ds m ≤ bound) :
    Reader.takeDigits bound m ds = (Nat.ofDigitChars 10 ds m, []) := by
  induction ds generalizing m with
  | nil => rfl
  | cons c ds ih =>
    rw [Nat.ofDigitChars_cons] at h
    have hstep : 10 * m + Reader.digitValue c ≤ bound := Nat.le_trans (le_ofDigitChars ds _) h
    rw [Reader.takeDigits, if_pos hstep, Nat.ofDigitChars_cons]
    exact ih _ h

/-- No number but zero starts with a zero. -/
theorem head?_toDigits_ne {n : Nat} (h : 0 < n) : (Nat.toDigits 10 n).head? ≠ some '0' := by
  induction n using Nat.strongRecOn with
  | ind n ih =>
    by_cases hn : n < 10
    · rw [Nat.toDigits_of_lt_base hn]
      have hdigit : ∀ d < 10, 0 < d → [Nat.digitChar d].head? ≠ some '0' := by decide
      exact hdigit n hn h
    · rw [Nat.toDigits_of_base_le (by decide) (by omega), List.head?_append,
        Option.or_of_isSome (List.isSome_head?.2 Nat.toDigits_ne_nil)]
      exact ih (n / 10) (by omega) (by omega)

/-! ## Values -/

/-- What a written value may start with: it is neither a blank nor anything that separates or
closes. -/
def StartsValue (c : Char) : Prop :=
  Reader.isBlank c = false ∧ c ∉ [',', ']', '\x7d', ':']

theorem startsValue_of_isDigit {c : Char} (h : c.isDigit = true) : StartsValue c := by
  refine ⟨Bool.eq_false_iff.2 fun hblank => ?_, fun hmem => ?_⟩
  · simp only [Reader.isBlank, Bool.or_eq_true, decide_eq_true_eq] at hblank
    obtain ((rfl | rfl) | rfl) | rfl := hblank <;> exact absurd h (by decide)
  · simp only [List.mem_cons, List.not_mem_nil, or_false] at hmem
    obtain rfl | rfl | rfl | rfl := hmem <;> exact absurd h (by decide)

end Json
end ModuleMerge
