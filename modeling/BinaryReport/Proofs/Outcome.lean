/-!
# Outcomes

What the parts of an outcome are known to be once the whole is known to succeed, and which error an
outcome of several parts has: that of the first part that has one (`Raises.bind`).
-/

namespace BinaryReport.Outcome

variable {ε ε' α β : Type}

theorem exists_ok_of_toBool {x : Except ε α} (h : x.toBool = true) : ∃ a, x = .ok a := by
  cases x with
  | error err => cases h
  | ok a => exact ⟨a, rfl⟩

theorem ok_of_toOption {x : Except ε α} {a : α} (h : x.toOption = some a) : x = .ok a := by
  cases x with
  | error err => cases h
  | ok b => exact congrArg _ (Option.some.inj h)

theorem bind_eq_ok {x : Except ε α} {f : α → Except ε β} {b : β} (h : x >>= f = .ok b) :
    ∃ a, x = .ok a ∧ f a = .ok b := by
  cases x with
  | error err => cases h
  | ok a => exact ⟨a, rfl, h⟩

theorem bind_of_ok {x : Except ε α} {f : α → Except ε β} {a : α} (h : x = .ok a) :
    x >>= f = f a := by
  rw [h]
  rfl

theorem bind_eq_error {x : Except ε α} {f : α → Except ε β} {err : ε}
    (h : x >>= f = .error err) : x = .error err ∨ ∃ a, x = .ok a ∧ f a = .error err := by
  cases x with
  | error cause =>
    obtain rfl := Except.error.inj h
    exact Or.inl rfl
  | ok a => exact Or.inr ⟨a, rfl, h⟩

theorem map_eq_ok {x : Except ε α} {f : α → β} {b : β} (h : x.map f = .ok b) :
    ∃ a, x = .ok a ∧ f a = b := by
  cases x with
  | error err => cases h
  | ok a => exact ⟨a, rfl, Except.ok.inj h⟩

theorem mapError_ok (f : ε → ε') (a : α) : (Except.ok a : Except ε α).mapError f = .ok a := rfl

theorem ok_of_mapError {f : ε → ε'} {x : Except ε α} {a : α} (h : x.mapError f = .ok a) :
    x = .ok a := by
  cases x with
  | error err => cases h
  | ok b => exact congrArg _ (Except.ok.inj h)

theorem error_of_mapError {f : ε → ε'} {x : Except ε α} {err : ε'}
    (h : x.mapError f = .error err) : ∃ cause, x = .error cause ∧ err = f cause := by
  cases x with
  | error cause => exact ⟨cause, rfl, (Except.error.inj h).symm⟩
  | ok a => cases h

/-! ## Errors -/

/-- The outcome `x` has the error `err?`, and it is an answer if there is none. -/
def Raises (err? : Option ε) (x : Except ε α) : Prop :=
  (∃ err, err? = some err ∧ x = .error err) ∨ (err? = none ∧ ∃ a, x = .ok a)

theorem raises_ok (a : α) : Raises (none : Option ε) (.ok a) := Or.inr ⟨rfl, a, rfl⟩

theorem raises_error (err : ε) : Raises (some err) (.error err : Except ε α) :=
  Or.inl ⟨err, rfl, rfl⟩

theorem Raises.map {err? : Option ε} {x : Except ε α} (h : Raises err? x) (f : α → β) :
    Raises err? (x.map f) := by
  rcases h with ⟨err, rfl, rfl⟩ | ⟨rfl, a, rfl⟩
  · exact raises_error err
  · exact raises_ok (f a)

/-- Of two parts the first that has an error decides. -/
theorem Raises.bind {err? err'? : Option ε} {x : Except ε α} {f : α → Except ε β}
    (h : Raises err? x) (hf : ∀ a, x = .ok a → Raises err'? (f a)) :
    Raises (err?.or err'?) (x >>= f) := by
  rcases h with ⟨err, rfl, rfl⟩ | ⟨rfl, a, rfl⟩
  · exact raises_error err
  · exact hf a rfl

end BinaryReport.Outcome
