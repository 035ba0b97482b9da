import InternetMail.Notice
import InternetMail.Proofs.Outcome

/-!
# Work in place

Some work is done on a value in place, step after step, and a step may fail after others have
changed the value. What they did stays done then: an `InPlace σ α` gives how the work ends together
with the value that it leaves (`InPlace.result`). So it is a fact about each piece of work, and none
about how it is called, that a failure leaves the value as it was.
-/

namespace InternetMail

open Reported (outcome)

/-- Work on a value in place. What it did to the value stays done if it fails. -/
abbrev InPlace (σ : Type) := ExceptT Error (StateT σ (Reported Notice))

namespace InPlace

variable {σ α β : Type}

/-- How the work ends, and the value that it leaves. -/
def result (x : InPlace σ α) (s : σ) : Outcome α × σ :=
  (x.run.run s).value

/-- Tries something that does not touch the value. -/
def attempt (x : Attempt α) : InPlace σ α :=
  ExceptT.mk (StateT.lift x.run)

/-- Two steps end as the second does, on the value that the first left, unless the first fails. -/
theorem result_bind (x : InPlace σ α) (f : α → InPlace σ β) (s : σ) :
    result (x >>= f) s = match result x s with
      | (.ok a, s') => result (f a) s'
      | (.error e, s') => (.error e, s') := by
  have hstep : result (x >>= f) s = ((ExceptT.bindCont f (x.run.run s).value.1).run
      (x.run.run s).value.2).value := rfl
  rw [hstep, result]
  rcases (x.run.run s).value with ⟨_ | _, s'⟩ <;> rfl

/-- A computation that works on nothing leaves everything as it was, and may fail. -/
theorem result_attempt (x : Attempt α) (s : σ) : result (attempt x) s = (outcome x, s) := rfl

theorem result_get (s : σ) : result get s = (.ok s, s) := rfl

theorem result_modify (f : σ → σ) (s : σ) : result (modify f) s = (.ok (), f s) := rfl

end InPlace

end InternetMail
