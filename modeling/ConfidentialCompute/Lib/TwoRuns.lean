import Mathlib.Logic.Relation

/-!
# Two runs of a fallible computation

`Alike R x y` says of two runs that they fail with one error, or succeed with results that `R`
relates. What is compared is what an observer of the errors sees, so a computation whose runs are
alike for any two secrets tells nothing about them by failing. The rules follow the ways a
computation is composed.
-/

namespace TwoRuns

universe u v

variable {ε δ : Type u} {α β α' β' : Type u} {ι : Type v}

inductive Alike (R : α → α' → Prop) : Except ε α → Except ε α' → Prop
  | ok {a : α} {a' : α'} : R a a' → Alike R (.ok a) (.ok a')
  | error (e : ε) : Alike R (.error e) (.error e)

variable {R : α → α' → Prop} {T : β → β' → Prop} {x : Except ε α} {x' : Except ε α'}

/-- What is related was returned. -/
theorem Alike.returned (alike : Alike R x x') :
    Alike (fun a a' => x = .ok a ∧ x' = .ok a' ∧ R a a') x x' := by
  cases alike with
  | ok related => exact .ok ⟨rfl, rfl, related⟩
  | error e => exact .error e

theorem Alike.bind {f : α → Except ε β} {f' : α' → Except ε β'} (alike : Alike R x x')
    (next : ∀ a a', R a a' → Alike T (f a) (f' a')) : Alike T (x >>= f) (x' >>= f') := by
  cases alike with
  | ok related => exact next _ _ related
  | error e => exact .error e

theorem Alike.map {g : α → β} {g' : α' → β'} (alike : Alike R x x')
    (related : ∀ a a', R a a' → T (g a) (g' a')) : Alike T (x.map g) (x'.map g') := by
  cases alike with
  | ok holds => exact .ok (related _ _ holds)
  | error e => exact .error e

theorem Alike.mapError {g : ε → δ} (alike : Alike R x x') :
    Alike R (x.mapError g) (x'.mapError g) := by
  cases alike with
  | ok related => exact .ok related
  | error e => exact .error (g e)

/-- Runs that are alike up to equality are equal. -/
theorem Alike.eq {y y' : Except ε α} (alike : Alike (· = ·) y y') : y = y' := by
  cases alike with
  | ok related => exact congrArg Except.ok related
  | error e => rfl

theorem Alike.of_eq {y y' : Except ε α} (equal : y = y') : Alike (· = ·) y y' := by
  subst equal
  cases y with
  | ok a => exact .ok rfl
  | error e => exact .error e

/-- **Loop rule.** -/
theorem Alike.foldlM {f : α → ι → Except ε α} {f' : α' → ι → Except ε α'} {items : List ι}
    {a : α} {a' : α'} (start : R a a')
    (turn : ∀ item ∈ items, ∀ a a', R a a' → Alike R (f a item) (f' a' item)) :
    Alike R (items.foldlM f a) (items.foldlM f' a') := by
  induction items generalizing a a' with
  | nil => exact .ok start
  | cons item rest ih =>
      refine (turn item List.mem_cons_self a a' start).bind fun b b' related => ?_
      exact ih related fun item' among => turn item' (List.mem_cons_of_mem _ among)

end TwoRuns
