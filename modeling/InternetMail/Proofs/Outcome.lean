import InternetMail.Reported

/-!
# Outcomes that went well

How a computation in steps came to give a value: each of its steps gave one (`bind_eq_ok_iff`,
`map_eq_ok_iff`). It failed because one of them did (`bind_eq_error_iff`, `map_eq_error_iff`). With
the lemmas on `Reported.outcome` these take any reader of the library apart without a look at its
notices.

`FailsAs x P` says of a computation that it fails, and with what, when more than one of its steps
can: steps are put together without regard to which of them fails first (`FailsAs.bind`).
-/

namespace InternetMail

variable {ε ν α β : Type}

theorem ok_bind (a : α) (f : α → Except ε β) : (.ok a >>= f) = f a := rfl

/-- Two steps give a value exactly when the first gives one and the second does from there. -/
theorem bind_eq_ok_iff {x : Except ε α} {f : α → Except ε β} {b : β} :
    (x >>= f) = .ok b ↔ ∃ a, x = .ok a ∧ f a = .ok b := by
  cases x with
  | error e => simp [bind, Except.bind]
  | ok a => simp [bind, Except.bind]

/-- A step after a check. -/
theorem check_bind_eq_ok_iff {x : Except ε Unit} {f : Unit → Except ε β} {b : β} :
    (x >>= f) = .ok b ↔ x = .ok () ∧ f () = .ok b := by
  rw [bind_eq_ok_iff]
  exact ⟨fun ⟨_, h⟩ ↦ h, fun h ↦ ⟨(), h⟩⟩

/-- What a function makes of a value came from that value; a failure is passed on as it is. -/
theorem map_eq_ok_iff {x : Except ε α} {f : α → β} {b : β} :
    x.map f = .ok b ↔ ∃ a, x = .ok a ∧ f a = b := by
  cases x with
  | error e => simp [Except.map]
  | ok a => simp [Except.map]

/-- Two steps fail exactly when the first fails or the second does after it. -/
theorem bind_eq_error_iff {x : Except ε α} {f : α → Except ε β} {e : ε} :
    (x >>= f) = .error e ↔ x = .error e ∨ ∃ a, x = .ok a ∧ f a = .error e := by
  cases x with
  | error e' => simp [bind, Except.bind]
  | ok a => simp [bind, Except.bind]

/-- Nothing can fail in what is done to a value afterwards, so the failure was there before. -/
theorem map_eq_error_iff {x : Except ε α} {f : α → β} {e : ε} :
    x.map f = .error e ↔ x = .error e := by
  cases x with
  | error e' => simp [Except.map]
  | ok a => simp [Except.map]

/-- Putting failures in other terms leaves the values alone. -/
theorem mapError_eq_ok_iff {ε₁ : Type} {x : Except ε α} {f : ε → ε₁} {a : α} :
    x.mapError f = .ok a ↔ x = .ok a := by
  cases x with
  | error e => exact ⟨fun h ↦ (nomatch h), fun h ↦ (nomatch h)⟩
  | ok a => exact ⟨fun h ↦ congrArg _ (Except.ok.inj h), fun h ↦ congrArg _ (Except.ok.inj h)⟩

/-- A failure in other terms is one that was there before, in its own terms. Two failures may have
come to be the same. -/
theorem mapError_eq_error_iff {ε₁ : Type} {x : Except ε α} {f : ε → ε₁} {e : ε₁} :
    x.mapError f = .error e ↔ ∃ e', x = .error e' ∧ f e' = e := by
  cases x with
  | error e' =>
    constructor
    · exact fun h ↦ ⟨e', rfl, Except.error.inj h⟩
    · rintro ⟨_, h, rfl⟩
      cases h
      rfl
  | ok a =>
    constructor
    · exact fun h ↦ (nomatch h)
    · rintro ⟨_, h, -⟩
      cases h

/-! ### How a computation fails -/

/-- The computation fails only with what `P` holds of, and fails if that is anything at all. Which
of the faults it is that `P` holds of depends on the order of its steps. -/
structure FailsAs (x : Except ε α) (P : ε → Prop) : Prop where
  of_error : ∀ ⦃e⦄, x = .error e → P e
  exists_error : ∀ ⦃e⦄, P e → ∃ e', x = .error e'

namespace FailsAs

variable {x : Except ε α} {g : α → Except ε β} {P Q : ε → Prop}

/-- Any computation fails as it does. This is where the steps that are not taken apart further come
in. -/
theorem self (x : Except ε α) : FailsAs x (x = .error ·) :=
  ⟨fun _ h ↦ h, fun e h ↦ ⟨e, h⟩⟩

/-- A computation that goes well does not fail. -/
theorem ok (a : α) : FailsAs (.ok a : Except ε α) fun _ ↦ False :=
  ⟨fun _ h ↦ (nomatch h), fun _ h ↦ h.elim⟩

/-- What a computation may fail with can be said in another way. -/
theorem congr (h : FailsAs x P) (hPQ : ∀ e, P e ↔ Q e) : FailsAs x Q :=
  ⟨fun e he ↦ (hPQ e).1 (h.of_error he), fun e he ↦ h.exists_error ((hPQ e).2 he)⟩

/-- Two steps fail as either of them does, if the second fails in the same way from wherever it goes
on. -/
theorem bind (hx : FailsAs x P) (hg : ∀ a, FailsAs (g a) Q) :
    FailsAs (x >>= g) fun e ↦ P e ∨ Q e := by
  constructor
  · intro e h
    rcases bind_eq_error_iff.1 h with h | ⟨a, -, h⟩
    · exact Or.inl (hx.of_error h)
    · exact Or.inr ((hg a).of_error h)
  · rintro e (h | h)
    · obtain ⟨e', he'⟩ := hx.exists_error h
      exact ⟨e', bind_eq_error_iff.2 (Or.inl he')⟩
    · cases hx' : x with
      | error e' => exact ⟨e', rfl⟩
      | ok a => exact (hg a).exists_error h

/-- Steps that cannot fail at the end add nothing to what a computation may fail with. -/
theorem bind_ok (hx : FailsAs x P) (k : α → β) : FailsAs (x >>= fun a ↦ .ok (k a)) P :=
  (hx.bind fun a ↦ ok (k a)).congr fun _ ↦ iff_of_eq (or_false _)

end FailsAs

namespace Reported

/-- A computation without a report keeps its outcome among those with one. -/
@[simp]
theorem outcome_liftExcept (x : Except ε α) :
    outcome (monadLift x : ExceptT ε (Reported ν) α) = x := rfl

end Reported

end InternetMail
