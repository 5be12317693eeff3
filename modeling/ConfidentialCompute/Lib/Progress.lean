import Mathlib.Algebra.BigOperators.Group.List.Basic
import Mathlib.Algebra.GroupWithZero.Nat
import Mathlib.Data.List.Perm.Basic
import ConfidentialCompute.Lib.Runs

/-!
# Parties

A system of parties that take steps one at a time. What all of them have together changes by what it
changes for the party that takes the step. `rank a` bounds the number of steps that a party at `a`
still takes, and `work` the number that all take together.

* `Run.length_add_work_le`: when with every step the work gets less, runs are short.
* `forall_done_of_stuck`: where nothing is possible any more, everyone is done.
* `work_set_add`, `countP_set_add`, `perm_filterMap_set`: a step of one party.
-/

namespace Runs

universe u v

/-- **Bound rule.** A measure that every step makes smaller bounds the length of a run. -/
theorem Run.length_add_work_le {σ : Type u} {α : Type v} {step : σ → α → Option σ}
    {ok : σ → α → Prop} {s₀ s : σ} {ls : List α} {work : σ → Nat}
    (less : ∀ s l s', ok s l → step s l = some s' → work s' < work s)
    (run : Run step ok s₀ ls s) : ls.length + work s ≤ work s₀ := by
  induction run with
  | nil => simp
  | snoc _ admitted taken ih =>
      have shorter := less _ _ _ admitted taken
      rw [List.length_append, List.length_singleton]
      omega

variable {β : Type u} {γ : Type v} {parties : List β} {i : Nat} {a a' : β}

/-- **Progress rule.** If some step is possible as long as a party is not done, then all are done
where no step is possible. -/
theorem forall_done_of_stuck {σ α : Type*} {step : σ → α → Option σ} {ok : σ → α → Prop} {s : σ}
    {done : β → Prop}
    (enabled : ∀ (i : Nat) (a : β), parties[i]? = some a → ¬ done a →
      ∃ l s', ok s l ∧ step s l = some s')
    (stuck : ∀ l s', ok s l → step s l ≠ some s') : ∀ a ∈ parties, done a := by
  intro a among
  obtain ⟨i, found⟩ := List.mem_iff_getElem?.mp among
  by_contra undone
  obtain ⟨l, s', allowed, taken⟩ := enabled i a found undone
  exact stuck l s' allowed taken

/-- One party among the others, before and after a step. -/
theorem exists_others (found : parties[i]? = some a) :
    ∃ others, parties.Perm (a :: others) ∧ ∀ a', (parties.set i a').Perm (a' :: others) := by
  obtain ⟨bound, rfl⟩ := List.getElem?_eq_some_iff.mp found
  exact ⟨parties.eraseIdx i, (List.getElem_cons_eraseIdx_perm bound).symm,
    fun a' => List.set_perm_cons_eraseIdx bound a'⟩

theorem modify_cases (f : β → β) (parties : List β) (i : Nat) :
    parties.modify i f = parties ∨
      ∃ a, parties[i]? = some a ∧ parties.modify i f = parties.set i (f a) := by
  rw [List.modify_eq_set_getElem?]
  cases found : parties[i]? with
  | none => exact Or.inl rfl
  | some a => exact Or.inr ⟨a, rfl, rfl⟩

theorem forall_mem_set {P : β → Prop} (all : ∀ a ∈ parties, P a) (new : P a') :
    ∀ a ∈ parties.set i a', P a := by
  intro a among
  rcases List.mem_or_eq_of_mem_set among with old | rfl
  · exact all a old
  · exact new

theorem forall_mem_modify {P : β → Prop} {f : β → β} (all : ∀ a ∈ parties, P a)
    (keeps : ∀ a, P a → P (f a)) (i : Nat) : ∀ a ∈ parties.modify i f, P a := by
  rcases modify_cases f parties i with same | ⟨a, found, isSet⟩
  · rw [same]
    exact all
  · rw [isSet]
    exact forall_mem_set all (keeps a (all a (List.mem_of_getElem? found)))

theorem countP_set_add (p : β → Bool) (a' : β) (found : parties[i]? = some a) :
    (parties.set i a').countP p + (if p a then 1 else 0) =
      parties.countP p + (if p a' then 1 else 0) := by
  obtain ⟨others, before, after⟩ := exists_others found
  rw [before.countP_eq, (after a').countP_eq, List.countP_cons, List.countP_cons]
  omega

theorem countP_modify {p : β → Bool} {f : β → β} (blind : ∀ a, p (f a) = p a) (i : Nat) :
    (parties.modify i f).countP p = parties.countP p := by
  rcases modify_cases f parties i with same | ⟨a, found, isSet⟩
  · rw [same]
  · have change := countP_set_add p (f a) found
    rw [blind] at change
    rw [isSet]
    omega

/-! ## Possessions -/

section Possessions

variable {f : β → Option γ} {n : γ}

theorem filterMap_cons_eq (a : β) (rest : List β) :
    (a :: rest).filterMap f = (f a).toList ++ rest.filterMap f := by
  cases has : f a with
  | none => rw [List.filterMap_cons_none has, Option.toList_none, List.nil_append]
  | some n => rw [List.filterMap_cons_some has, Option.toList_some, List.singleton_append]

/-- What the party has afterwards is exchanged for what it had. -/
theorem perm_filterMap_set (a' : β) (found : parties[i]? = some a) :
    ((f a').toList ++ parties.filterMap f).Perm
      ((f a).toList ++ (parties.set i a').filterMap f) := by
  obtain ⟨others, before, after⟩ := exists_others found
  have old := (before.filterMap f).append_left (f a').toList
  have new := ((after a').filterMap f).append_left (f a).toList
  rw [filterMap_cons_eq] at old new
  exact old.trans ((List.perm_append_comm_assoc ..).trans new.symm)

theorem mem_filterMap_set (found : parties[i]? = some a) (among : n ∈ parties.filterMap f)
    (keeps : f a = some n → f a' = some n) : n ∈ (parties.set i a').filterMap f := by
  obtain ⟨others, before, after⟩ := exists_others found
  rw [((after a').filterMap f).mem_iff, filterMap_cons_eq, List.mem_append, Option.mem_toList]
  rw [(before.filterMap f).mem_iff, filterMap_cons_eq, List.mem_append, Option.mem_toList] at among
  exact among.imp_left keeps

end Possessions

/-! ## Work -/

variable (rank : β → Nat)

def work (parties : List β) : Nat := (parties.map rank).sum

/-- The work changes by what it changes for the party. -/
theorem work_set_add (found : parties[i]? = some a) :
    work rank (parties.set i a') + rank a = work rank parties + rank a' := by
  obtain ⟨others, before, after⟩ := exists_others found
  unfold work
  rw [(before.map rank).sum_eq, ((after a').map rank).sum_eq, List.map_cons, List.map_cons,
    List.sum_cons, List.sum_cons]
  omega

/-- A party that comes nearer to its end leaves less work. -/
theorem work_set_lt (found : parties[i]? = some a) (less : rank a' < rank a) :
    work rank (parties.set i a') < work rank parties := by
  have change : work rank (parties.set i a') + rank a = work rank parties + rank a' :=
    work_set_add rank found
  omega

theorem work_append (more : List β) :
    work rank (parties ++ more) = work rank parties + work rank more := by
  unfold work
  rw [List.map_append, List.sum_append]

/-- A party that may come nearer to its end does not make more work. -/
theorem work_modify_le {f : β → β} (less : ∀ a, rank (f a) ≤ rank a) (i : Nat) :
    work rank (parties.modify i f) ≤ work rank parties := by
  rcases modify_cases f parties i with same | ⟨a, found, isSet⟩
  · exact Nat.le_of_eq (congrArg (work rank) same)
  · have change : work rank (parties.set i (f a)) + rank a = work rank parties + rank (f a) :=
      work_set_add rank found
    have := less a
    rw [isSet]
    omega

theorem work_le {n : Nat} (most : ∀ a, rank a ≤ n) (parties : List β) :
    work rank parties ≤ n * parties.length := by
  unfold work
  induction parties with
  | nil => simp
  | cons first rest ih =>
      have bound := most first
      rw [List.map_cons, List.sum_cons, List.length_cons, Nat.mul_succ]
      omega

end Runs
