/-!
# Values with a report

Reading mail often goes on where a stricter reader would stop, and says so. A `Reported ν α` is a
value together with the notices that came up on the way to it, in order. A computation that may fail
is an `ExceptT ε (Reported ν) α`: it keeps the notices that came up before it failed.

What is reported never decides what is computed: `value_bind` and `outcome_bind` read a value and an
outcome off without the notices.
-/

namespace InternetMail

/-- A value and the notices that came up on the way to it. -/
structure Reported (ν : Type) (α : Type) where
  value : α
  notices : List ν

namespace Reported

variable {ν μ α β ε ε₁ : Type}

instance : Monad (Reported ν) where
  pure a := ⟨a, []⟩
  bind x f := ⟨(f x.value).value, x.notices ++ (f x.value).notices⟩

/-- Reports one notice. -/
def report (n : ν) : Reported ν Unit := ⟨(), [n]⟩

/-- Reports one notice, in a computation that may fail. -/
def note (n : ν) : ExceptT ε (Reported ν) Unit := ExceptT.lift (report n)

/-- The outcome of a computation that may fail. -/
def outcome (x : ExceptT ε (Reported ν) α) : Except ε α :=
  x.run.value

/-- The same computation, with its failure and its notices put in other terms. -/
def restate (onFailure : ε → ε₁) (onNotice : ν → μ) (x : ExceptT ε (Reported ν) α) :
    ExceptT ε₁ (Reported μ) α :=
  ExceptT.mk ⟨x.run.value.mapError onFailure, x.run.notices.map onNotice⟩

@[simp]
theorem value_pure (a : α) : (pure a : Reported ν α).value = a := rfl

/-- The value of two steps is that of the second on the value of the first. -/
@[simp]
theorem value_bind (x : Reported ν α) (f : α → Reported ν β) :
    (x >>= f).value = (f x.value).value := rfl

@[simp]
theorem outcome_pure (a : α) : outcome (pure a : ExceptT ε (Reported ν) α) = .ok a := rfl

@[simp]
theorem outcome_throw (e : ε) : outcome (throw e : ExceptT ε (Reported ν) α) = .error e := rfl

/-- The outcome of two steps is that of the second, if the first does not fail. -/
@[simp]
theorem outcome_bind (x : ExceptT ε (Reported ν) α) (f : α → ExceptT ε (Reported ν) β) :
    outcome (x >>= f) = (outcome x >>= fun a ↦ outcome (f a)) := by
  obtain ⟨v, ns⟩ : Reported ν (Except ε α) := x
  cases v <;> rfl

/-- The outcome of a second try is that of the first, unless that fails. -/
@[simp]
theorem outcome_tryCatch (x : ExceptT ε (Reported ν) α) (f : ε → ExceptT ε (Reported ν) α) :
    outcome (tryCatch x f) =
      match outcome x with
      | .ok a => .ok a
      | .error e => outcome (f e) := by
  obtain ⟨v, ns⟩ : Reported ν (Except ε α) := x
  cases v <;> rfl

/-- A function is done to the value, if there is one. -/
@[simp]
theorem outcome_map (f : α → β) (x : ExceptT ε (Reported ν) α) :
    outcome (f <$> x) = (outcome x).map f := by
  obtain ⟨v, ns⟩ : Reported ν (Except ε α) := x
  cases v <;> rfl

/-- A computation that cannot fail goes well with its value. -/
@[simp]
theorem outcome_lift (x : Reported ν α) :
    outcome (monadLift x : ExceptT ε (Reported ν) α) = .ok x.value := rfl

@[simp]
theorem outcome_note (n : ν) : outcome (note n : ExceptT ε (Reported ν) Unit) = .ok () := rfl

/-- Putting a computation in other terms changes the failure that comes out, and no value. -/
@[simp]
theorem outcome_restate (f : ε → ε₁) (g : ν → μ) (x : ExceptT ε (Reported ν) α) :
    outcome (restate f g x) = (outcome x).mapError f := rfl

end Reported

end InternetMail
