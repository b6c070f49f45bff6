/-!
# Steps in a row

A reader takes what is left of a text and gives a value with what is left after it, or a fault. An
action changes a state, also if it fails. Both are made of steps, one after the other. The facts
here hold whatever the faults and the states are.

* `Reading.bind_ok` and `Reading.map_ok` take a reader apart.
* `Reading.takeWhile_append` and `Reading.dropWhile_append` say where a run of characters ends.
* `Acting.bind_ok`, `Acting.bind_error` and `Acting.exists_of_bind_ok` take an action apart.
-/

set_option autoImplicit false

namespace ModuleMerge
namespace Reading

section

variable {ε α β : Type} {r : StateT (List Char) (Except ε) α} {cs t : List Char} {a : α}

/-- A reader goes on where the one before it stopped. -/
theorem bind_ok {f : α → StateT (List Char) (Except ε) β} (h : r cs = .ok (a, t)) :
    (r >>= f) cs = f a t := by
  simp only [bind, StateT.bind, h, Except.bind]

theorem map_ok {f : α → β} (h : r cs = .ok (a, t)) : (f <$> r) cs = .ok (f a, t) := by
  simp only [Functor.map, StateT.map, h, bind, Except.bind, pure, Except.pure]

theorem bind_error {f : α → StateT (List Char) (Except ε) β} {e : ε} (h : r cs = .error e) :
    (r >>= f) cs = .error e := by
  simp only [bind, StateT.bind, h, Except.bind]

theorem map_error {f : α → β} {e : ε} (h : r cs = .error e) : (f <$> r) cs = .error e := by
  simp only [Functor.map, StateT.map, h, bind, Except.bind]

/-- What two readers give one after the other. -/
theorem toOption_bind {f : α → StateT (List Char) (Except ε) β} :
    ((r >>= f) cs).toOption
      = (r cs).toOption.bind fun result => (f result.1 result.2).toOption := by
  cases hr : r cs with
  | ok result => rw [bind_ok (a := result.1) (t := result.2) hr]; rfl
  | error e => rw [bind_error hr]; rfl

/-- A value that was changed on the way came from a reader that went through. -/
theorem exists_of_map_ok {f : α → β} {b : β} (h : (f <$> r) cs = .ok (b, t)) :
    ∃ a, f a = b ∧ r cs = .ok (a, t) := by
  cases hr : r cs with
  | ok result =>
    rw [map_ok (a := result.1) (t := result.2) hr] at h
    obtain ⟨hb, rfl⟩ := Prod.mk.inj (Except.ok.inj h)
    exact ⟨result.1, hb, rfl⟩
  | error e =>
    rw [map_error hr] at h
    contradiction

end

/-! ## Runs of characters

A scanner takes characters as long as they are of its kind. Where it stops depends on what follows,
of which only the first character counts; if nothing follows, it stops anyway. -/

variable {p : Char → Bool} {run rest : List Char}

theorem takeWhile_append (hrun : ∀ c ∈ run, p c = true) (hrest : ∀ c ∈ rest.head?, p c = false) :
    (run ++ rest).takeWhile p = run := by
  rw [List.takeWhile_append_of_pos hrun]
  cases rest with
  | nil => exact List.append_nil run
  | cons c rest => simp [hrest c rfl]

theorem dropWhile_append (hrun : ∀ c ∈ run, p c = true) (hrest : ∀ c ∈ rest.head?, p c = false) :
    (run ++ rest).dropWhile p = rest := by
  rw [List.dropWhile_append_of_pos hrun]
  cases rest with
  | nil => rfl
  | cons c rest => simp [hrest c rfl]

end Reading

namespace Acting

variable {ε σ α β : Type} {x : EStateM ε σ α} {f : α → EStateM ε σ β} {s t : σ}

theorem bind_ok {a : α} (h : x s = .ok a t) : (x >>= f) s = f a t := by
  simp only [bind, EStateM.bind, h]

/-- A step that fails is the last one. -/
theorem bind_error {e : ε} (h : x s = .error e t) : (x >>= f) s = .error e t := by
  simp only [bind, EStateM.bind, h]

/-- Two steps went through if the first did and then the second. -/
theorem exists_of_bind_ok {b : β} (h : (x >>= f) s = .ok b t) :
    ∃ a between, x s = .ok a between ∧ f a between = .ok b t := by
  simp only [bind, EStateM.bind] at h
  cases hx : x s with
  | ok a between =>
    rw [hx] at h
    exact ⟨a, between, rfl, h⟩
  | error e between =>
    rw [hx] at h
    simp at h

end Acting
end ModuleMerge
