import InternetMail.Proofs.Outcome
import Mathlib.Data.List.Forall2

/-!
# Outcomes without a report

A computation that is `pure a` gave its value and had nothing to report, neither in the end nor in
any of its steps (`bind_eq_pure_iff`). That is how a text reads in which nothing has to be put
right. A computation over a list is that computation on each of its members: it has nothing to
report if none of them has (`mapM_eq_pure_iff`), and goes well if all of them do
(`outcome_mapM_eq_ok_iff`).

Two computations are `Alike` if they report the same and give the same value, whatever they fail
with. Steps that are alike make computations that are (`Alike.bind`).

A computation is `Silent` if it has nothing to report whenever it goes well. Steps that are silent
make a silent computation (`Silent.bind`), so that a reader that refuses what it would have to put
right is seen to be silent step by step.
-/

namespace InternetMail.Reported

variable {ε ν μ α β : Type}

/-- Of a computation that only gives its value, the value can be read off. -/
theorem pure_eq_pure_iff {a b : α} :
    (pure a : ExceptT ε (Reported ν) α) = pure b ↔ a = b := by
  constructor
  · intro h
    have := congrArg outcome h
    simpa using this
  · rintro rfl
    rfl

/-- Two steps have nothing to report exactly when neither of them has. -/
theorem bind_eq_pure_iff {x : ExceptT ε (Reported ν) α} {f : α → ExceptT ε (Reported ν) β}
    {b : β} : (x >>= f) = pure b ↔ ∃ a, x = pure a ∧ f a = pure b := by
  constructor
  · intro h
    obtain ⟨v, ns⟩ : Reported ν (Except ε α) := x
    cases v with
    | error e => cases congrArg outcome h
    | ok a =>
      have hns : ns ++ (f a).run.notices = [] := congrArg (fun y ↦ y.run.notices) h
      obtain ⟨rfl, hf⟩ := List.append_eq_nil_iff.1 hns
      exact ⟨a, rfl, h⟩
  · rintro ⟨a, rfl, h⟩
    exact h

/-- A check reports nothing, so it is enough that it goes well. -/
theorem liftExcept_eq_pure_iff {x : Except ε α} {a : α} :
    (monadLift x : ExceptT ε (Reported ν) α) = pure a ↔ x = .ok a := by
  constructor
  · intro h
    have := congrArg outcome h
    simpa using this
  · rintro rfl
    rfl

/-- A computation that reports something is never one that reported nothing. -/
theorem note_ne_pure (n : ν) (u : Unit) : (note n : ExceptT ε (Reported ν) Unit) ≠ pure u := by
  intro h
  cases congrArg (fun y ↦ y.run.notices) h

/-- A computation that fails gives no value. -/
theorem throw_ne_pure (e : ε) (a : α) : (throw e : ExceptT ε (Reported ν) α) ≠ pure a := by
  intro h
  cases congrArg outcome h

/-- There is nothing to put in other terms where nothing was reported and nothing failed. -/
theorem restate_eq_pure_iff {ε₁ : Type} {f : ε → ε₁} {g : ν → μ} {x : ExceptT ε (Reported ν) α}
    {a : α} : restate f g x = pure a ↔ x = pure a := by
  constructor
  · intro h
    obtain ⟨v, ns⟩ : Reported ν (Except ε α) := x
    have hv := mapError_eq_ok_iff.1 (congrArg outcome h)
    have hns : ns.map g = [] := congrArg (fun y ↦ y.run.notices) h
    obtain rfl := List.map_eq_nil_iff.1 hns
    obtain rfl : v = .ok a := hv
    rfl
  · rintro rfl
    rfl

/-! ### Over a list -/

-- no instance, since simp would rewrite every reading by the laws of its monad
/-- Reports are put one behind the other, which is a law-abiding way to go on: it does not matter
how the steps are bracketed. -/
theorem lawfulMonad (ν : Type) : LawfulMonad (Reported ν) :=
  LawfulMonad.mk' _
    (fun x ↦ congrArg (mk x.value) (List.append_nil x.notices))
    (fun _ _ ↦ rfl)
    (fun x _ _ ↦ congrArg (mk _) (List.append_assoc x.notices _ _))

/-- The values over a list do not hang on what was reported for the members before. -/
theorem value_mapM (f : α → Reported ν β) (xs : List α) :
    (xs.mapM f).value = xs.map fun x ↦ (f x).value := by
  have := lawfulMonad ν
  induction xs with
  | nil => rfl
  | cons x xs ih =>
    rw [List.mapM_cons, value_bind, value_bind, ih]
    rfl

/-- A computation over a list gives its values without a report exactly if it does so on each
member. -/
theorem mapM_eq_pure_iff {f : α → ExceptT ε (Reported ν) β} {xs : List α} {ys : List β} :
    xs.mapM f = pure ys ↔ List.Forall₂ (fun x y ↦ f x = pure y) xs ys := by
  have := lawfulMonad ν
  induction xs generalizing ys with
  | nil => simp [pure_eq_pure_iff, eq_comm]
  | cons x xs ih =>
    simp only [List.mapM_cons, bind_eq_pure_iff, pure_eq_pure_iff, ih, List.forall₂_cons_left_iff]
    constructor
    · rintro ⟨y, hy, zs, hzs, rfl⟩
      exact ⟨y, zs, hy, hzs, rfl⟩
    · rintro ⟨y, zs, hy, hzs, rfl⟩
      exact ⟨y, hy, zs, hzs, rfl⟩

/-- The outcome over a list is found without a look at the notices: the members are gone through up
to the first that fails. -/
theorem outcome_mapM (f : α → ExceptT ε (Reported ν) β) (xs : List α) :
    outcome (xs.mapM f) = xs.mapM fun x ↦ outcome (f x) := by
  have := lawfulMonad ν
  induction xs with
  | nil => rfl
  | cons x xs ih => simp only [List.mapM_cons, outcome_bind, outcome_pure, ih]; rfl

/-- A computation over a list goes well exactly if it does on each member. -/
theorem outcome_mapM_eq_ok_iff {f : α → ExceptT ε (Reported ν) β} {xs : List α} {ys : List β} :
    outcome (xs.mapM f) = .ok ys ↔ List.Forall₂ (fun x y ↦ outcome (f x) = .ok y) xs ys := by
  have := lawfulMonad ν
  induction xs generalizing ys with
  | nil => simp [eq_comm]
  | cons x xs ih =>
    simp only [List.mapM_cons, outcome_bind, outcome_pure, bind_eq_ok_iff, Except.ok.injEq, ih,
      List.forall₂_cons_left_iff]
    constructor
    · rintro ⟨y, hy, zs, hzs, rfl⟩
      exact ⟨y, zs, hy, hzs, rfl⟩
    · rintro ⟨y, zs, hy, hzs, rfl⟩
      exact ⟨y, hy, zs, hzs, rfl⟩

/-! ### Computations that come to the same -/

theorem eq_pure_iff {x : ExceptT ε (Reported ν) α} {a : α} :
    x = pure a ↔ x.run.notices = [] ∧ outcome x = .ok a := by
  constructor
  · rintro rfl
    exact ⟨rfl, rfl⟩
  · obtain ⟨v, ns⟩ : Reported ν (Except ε α) := x
    rintro ⟨hns, hv⟩
    obtain rfl : ns = [] := hns
    obtain rfl : v = .ok a := hv
    rfl

/-- The two report the same and give the same value, or fail both. -/
structure Alike (x y : ExceptT ε (Reported ν) α) : Prop where
  notices : x.run.notices = y.run.notices
  outcome_eq_ok_iff : ∀ a, outcome x = .ok a ↔ outcome y = .ok a

namespace Alike

theorem refl (x : ExceptT ε (Reported ν) α) : Alike x x :=
  ⟨rfl, fun _ ↦ Iff.rfl⟩

theorem symm {x y : ExceptT ε (Reported ν) α} (h : Alike x y) : Alike y x :=
  ⟨h.notices.symm, fun a ↦ (h.outcome_eq_ok_iff a).symm⟩

theorem trans {x y z : ExceptT ε (Reported ν) α} (hxy : Alike x y) (hyz : Alike y z) :
    Alike x z :=
  ⟨hxy.notices.trans hyz.notices,
    fun a ↦ (hxy.outcome_eq_ok_iff a).trans (hyz.outcome_eq_ok_iff a)⟩

theorem eq_pure_iff {x y : ExceptT ε (Reported ν) α} (h : Alike x y) {a : α} :
    x = Pure.pure a ↔ y = Pure.pure a := by
  rw [Reported.eq_pure_iff, Reported.eq_pure_iff, h.notices, h.outcome_eq_ok_iff]

/-- What computations fail with makes no difference between them. -/
theorem throw (e e' : ε) : Alike (throw e : ExceptT ε (Reported ν) α) (throw e') :=
  ⟨rfl, fun _ ↦ ⟨fun h ↦ (nomatch h), fun h ↦ (nomatch h)⟩⟩

/-- Checks that let the same values through are alike, as neither of them reports anything. -/
theorem liftExcept {x y : Except ε α} (h : ∀ a, x = .ok a ↔ y = .ok a) :
    Alike (monadLift x : ExceptT ε (Reported ν) α) (monadLift y) :=
  ⟨rfl, h⟩

/-- Steps that are alike, one after another, are alike as a whole, as long as the second does so on
every value that the first may give. -/
theorem bind {x x' : ExceptT ε (Reported ν) α} {f f' : α → ExceptT ε (Reported ν) β}
    (hx : Alike x x') (hf : ∀ a, Alike (f a) (f' a)) : Alike (x >>= f) (x' >>= f') := by
  obtain ⟨v, ns⟩ : Reported ν (Except ε α) := x
  obtain ⟨v', ns'⟩ : Reported ν (Except ε α) := x'
  obtain ⟨hns, hv⟩ := hx
  obtain rfl : ns = ns' := hns
  replace hv : ∀ a, v = .ok a ↔ v' = .ok a := hv
  cases v with
  | ok a =>
    obtain rfl := (hv a).1 rfl
    exact ⟨congrArg (ns ++ ·) (hf a).notices, (hf a).outcome_eq_ok_iff⟩
  | error e =>
    cases v' with
    | ok a => cases (hv a).2 rfl
    | error e' => exact ⟨rfl, fun _ ↦ ⟨fun h ↦ (nomatch h), fun h ↦ (nomatch h)⟩⟩

/-- Lists are gone through alike if their members are, one by one. -/
theorem mapM {γ : Type} {f : α → ExceptT ε (Reported ν) β} {g : γ → ExceptT ε (Reported ν) β}
    {xs : List α} {ys : List γ} (h : List.Forall₂ (fun x y ↦ Alike (f x) (g y)) xs ys) :
    Alike (xs.mapM f) (ys.mapM g) := by
  have := lawfulMonad ν
  induction h with
  | nil => exact refl _
  | cons hxy _ ih =>
    rw [List.mapM_cons, List.mapM_cons]
    exact bind hxy fun _ ↦ bind ih fun _ ↦ refl _

end Alike

/-! ### Computations that report nothing when they go well -/

/-- Whenever the computation goes well, it had nothing to report. -/
def Silent (x : ExceptT ε (Reported ν) α) : Prop :=
  ∀ ⦃a⦄, outcome x = .ok a → x = pure a

namespace Silent

theorem pure (a : α) : Silent (pure a : ExceptT ε (Reported ν) α) := by
  intro b hb
  exact pure_eq_pure_iff.2 (Except.ok.inj hb)

/-- A computation that fails does not go well. -/
theorem throw (e : ε) : Silent (throw e : ExceptT ε (Reported ν) α) :=
  fun _ h ↦ nomatch h

/-- Nothing comes after a failure, whatever the next step would report. -/
theorem throw_bind (e : ε) (f : α → ExceptT ε (Reported ν) β) :
    Silent ((MonadExcept.throw e : ExceptT ε (Reported ν) α) >>= f) :=
  fun _ h ↦ nomatch h

theorem liftExcept (x : Except ε α) : Silent (monadLift x : ExceptT ε (Reported ν) α) :=
  fun _ h ↦ liftExcept_eq_pure_iff.2 h

/-- Silent steps one after another are silent: if both went well, neither had anything to report. -/
theorem bind {x : ExceptT ε (Reported ν) α} {f : α → ExceptT ε (Reported ν) β} (hx : Silent x)
    (hf : ∀ a, Silent (f a)) : Silent (x >>= f) := by
  intro b hb
  rw [outcome_bind, bind_eq_ok_iff] at hb
  obtain ⟨a, ha, hb⟩ := hb
  exact bind_eq_pure_iff.2 ⟨a, hx ha, hf a hb⟩

/-- Going through a list is silent if it is on each member. -/
theorem mapM {f : α → ExceptT ε (Reported ν) β} (hf : ∀ a, Silent (f a)) (xs : List α) :
    Silent (xs.mapM f) := by
  intro ys hys
  exact mapM_eq_pure_iff.2 ((outcome_mapM_eq_ok_iff.1 hys).imp fun a _ hy ↦ hf a hy)

end Silent

end InternetMail.Reported
