/-!
# Texts with separators

A path has slashes between its names, and a filter of events has commas between its rules. To take
such a text apart and to put it together again are inverse to each other as long as no part has the
separator in it; the parts that come out of a text never do. Numbers of a fixed width are here as
well, which are what times and escapes are made of.

* `parts` are the parts of a text between its separators, and `joinParts` puts them together again.
* `fixedDigits` are the last digits of a number, so many of them.
-/

set_option autoImplicit false

namespace ModuleMerge
namespace Text

/-- The parts of a text between its separators. There is one more of them than separators. -/
def parts (separator : Char) : List Char → List (List Char)
  | [] => [[]]
  | c :: cs =>
    if c = separator then [] :: parts separator cs
    else
      match parts separator cs with
      | [] => [[c]]
      | part :: rest => (c :: part) :: rest

/-- The text with these parts between its separators. -/
def joinParts (separator : Char) (ps : List (List Char)) : List Char :=
  [separator].intercalate ps

/-- The last `width` digits of a number in a base up to sixteen. -/
def fixedDigits (base : Nat) : Nat → Nat → List Char
  | 0, _ => []
  | width + 1, n => fixedDigits base width (n / base) ++ [Nat.digitChar (n % base)]

/-! ## Small facts -/

/-- A text without separators is one part, and so is the empty text. -/
theorem parts_ne_nil (separator : Char) (cs : List Char) : parts separator cs ≠ [] := by
  induction cs with
  | nil => simp [parts]
  | cons c cs ih =>
    rw [parts]
    split
    · simp
    · split <;> simp

/-- The separators are all that is lost between the parts of a text. -/
@[simp] theorem joinParts_parts (separator : Char) (cs : List Char) :
    joinParts separator (parts separator cs) = cs := by
  induction cs with
  | nil => rfl
  | cons c cs ih =>
    obtain ⟨part, rest, h⟩ := List.exists_cons_of_ne_nil (parts_ne_nil separator cs)
    rw [h] at ih
    by_cases hc : c = separator
    · subst hc
      simp [parts, h, joinParts, List.intercalate] at ih ⊢
      exact ih
    · cases rest <;>
        simp [parts, h, hc, joinParts, List.intercalate, List.intersperse] at ih ⊢ <;>
        exact ih

/-- A separator takes a text apart, whatever stands on either side. -/
theorem parts_append (separator : Char) (xs ys : List Char) :
    parts separator (xs ++ separator :: ys)
      = parts separator xs ++ parts separator ys := by
  induction xs with
  | nil => simp [parts]
  | cons c xs ih =>
    obtain ⟨part, rest, hparts⟩ := List.exists_cons_of_ne_nil (parts_ne_nil separator xs)
    rw [List.cons_append, parts, parts, ih, hparts]
    split
    · rfl
    · rfl

theorem parts_of_not_mem {separator : Char} {cs : List Char} (h : separator ∉ cs) :
    parts separator cs = [cs] := by
  induction cs with
  | nil => rfl
  | cons c cs ih =>
    rw [List.mem_cons, not_or] at h
    rw [parts, if_neg (Ne.symm h.1), ih h.2]

theorem not_mem_of_mem_parts {separator : Char} {cs part : List Char}
    (h : part ∈ parts separator cs) : separator ∉ part := by
  induction cs generalizing part with
  | nil => simp_all [parts]
  | cons c cs ih =>
    obtain ⟨head, rest, hparts⟩ := List.exists_cons_of_ne_nil (parts_ne_nil separator cs)
    rw [hparts] at ih
    rw [parts, hparts] at h
    split at h
    · rcases List.mem_cons.1 h with rfl | h
      · exact List.not_mem_nil
      · exact ih h
    · rename_i hc
      rcases List.mem_cons.1 h with rfl | h
      · rw [List.mem_cons, not_or]
        exact ⟨Ne.symm hc, ih List.mem_cons_self⟩
      · exact ih (List.mem_cons_of_mem head h)

/-- What holds of every digit holds of all that are written. -/
theorem forall_mem_fixedDigits {base : Nat} (hbase : 0 < base) {p : Char → Prop}
    (hp : ∀ d < base, p (Nat.digitChar d)) {width n : Nat} :
    ∀ c ∈ fixedDigits base width n, p c := by
  induction width generalizing n with
  | zero => exact fun c hc => absurd hc List.not_mem_nil
  | succ width ih =>
    intro c hc
    rcases List.mem_append.1 hc with hc | hc
    · exact ih c hc
    · rw [List.mem_singleton.1 hc]
      exact hp _ (Nat.mod_lt n hbase)

@[simp] theorem length_fixedDigits (base width n : Nat) :
    (fixedDigits base width n).length = width := by
  induction width generalizing n with
  | zero => rfl
  | succ width ih => simp [fixedDigits, ih]

end Text
end ModuleMerge
