import Mathlib.Data.List.Induction

/-!
# Runs of guarded step functions

A system is a partial step function `step : σ → α → Option σ` on states `σ` and
labels `α`. `Run step ok s₀ ls s` says that the labels `ls`, taken one after the
other from `s₀`, end in `s`, and that each of them was taken in a state in which
`ok` admits it. `ok` is where the assumptions of a theorem about runs live: what
the environment promises, or which interleavings are considered.

* `Run.invariant`: a property that holds at the start and that every admitted
  step keeps holds at the end of every run.
* `Run.iff_steps`, `Run.forall_iff_steps`: the rules for a property that a step keeps exactly
  under a condition.
* `StepOf`: one step of a run, with the state before and the state after it.
* `Run.of_exec`, `Run.exists_of_exec`: a run is found by evaluating the step function.
* `StepOf.mem_visited`: what no step of a run does is found by evaluating it, too.
-/

namespace Runs

universe u v

variable {σ : Type u} {α : Type v}

/-- The labels `ls`, each admitted by `ok`, lead from `s₀` to `s`. -/
inductive Run (step : σ → α → Option σ) (ok : σ → α → Prop) (s₀ : σ) :
    List α → σ → Prop
  | nil : Run step ok s₀ [] s₀
  | snoc {ls : List α} {s s' : σ} {l : α} :
    Run step ok s₀ ls s → ok s l → step s l = some s' → Run step ok s₀ (ls ++ [l]) s'

/-- Every label is admitted. -/
def anyStep (_ : σ) (_ : α) : Prop := True

instance (s : σ) (l : α) : Decidable (anyStep s l) := isTrue trivial

/-- `StepOf step ok s₀ ls pre s l s'`: the run along `ls` takes `pre` to `s` and
then the label `l` to `s'`. -/
def StepOf (step : σ → α → Option σ) (ok : σ → α → Prop) (s₀ : σ) (ls : List α)
    (pre : List α) (s : σ) (l : α) (s' : σ) : Prop :=
  (∃ post, ls = pre ++ l :: post) ∧ Run step ok s₀ pre s ∧ ok s l ∧ step s l = some s'

variable {step : σ → α → Option σ} {ok ok' : σ → α → Prop} {s₀ s s' : σ}
  {ls pre post : List α} {l : α}

/-- A label of a longer list is the last one, or one of the list before. -/
theorem concat_eq_append_cons_iff {last : α} :
    ls ++ [last] = pre ++ l :: post ↔
      (pre = ls ∧ l = last ∧ post = []) ∨
        ∃ rest, post = rest ++ [last] ∧ ls = pre ++ l :: rest := by
  constructor
  · intro split
    rcases List.eq_nil_or_concat post with rfl | ⟨rest, final, rfl⟩
    · obtain ⟨rfl, same⟩ := List.append_inj' split rfl
      cases same
      exact Or.inl ⟨rfl, rfl, rfl⟩
    · rw [List.concat_eq_append, ← List.cons_append, ← List.append_assoc] at split
      obtain ⟨rfl, same⟩ := List.append_inj' split rfl
      cases same
      exact Or.inr ⟨rest, List.concat_eq_append, rfl⟩
  · rintro (⟨rfl, rfl, rfl⟩ | ⟨rest, rfl, rfl⟩)
    · rfl
    · simp

theorem Run.mono (admits : ∀ s l, ok s l → ok' s l) (run : Run step ok s₀ ls s) :
    Run step ok' s₀ ls s := by
  induction run with
  | nil => exact .nil
  | snoc _ admitted taken ih => exact .snoc ih (admits _ _ admitted) taken

theorem Run.any (run : Run step ok s₀ ls s) : Run step anyStep s₀ ls s :=
  run.mono fun _ _ _ => trivial

/-- **Invariant rule.** -/
theorem Run.invariant {inv : σ → Prop} (start : inv s₀)
    (keep : ∀ s l s', inv s → ok s l → step s l = some s' → inv s')
    (run : Run step ok s₀ ls s) : inv s := by
  induction run with
  | nil => exact start
  | snoc _ admitted taken ih => exact keep _ _ _ ih admitted taken

/-- **Invariant rule with history.** The property may speak of the labels taken so far. -/
theorem Run.invariant_history {inv : List α → σ → Prop} (start : inv [] s₀)
    (keep : ∀ ls s l s', Run step ok s₀ ls s → inv ls s → ok s l → step s l = some s' →
      inv (ls ++ [l]) s')
    (run : Run step ok s₀ ls s) : inv ls s := by
  induction run with
  | nil => exact start
  | snoc before admitted taken ih => exact keep _ _ _ _ before ih admitted taken

theorem Run.eq_nil (run : Run step ok s₀ [] s) : s = s₀ := by
  generalize empty : ([] : List α) = ls at run
  cases run with
  | nil => rfl
  | snoc _ _ _ => simp at empty

/-- The last step of a run. -/
theorem Run.of_snoc (run : Run step ok s₀ (ls ++ [l]) s') :
    ∃ s, Run step ok s₀ ls s ∧ ok s l ∧ step s l = some s' := by
  generalize labels : ls ++ [l] = ls' at run
  cases run with
  | nil => simp at labels
  | snoc before admitted taken =>
      obtain ⟨rfl, last⟩ := List.append_inj' labels rfl
      cases last
      exact ⟨_, before, admitted, taken⟩

theorem Run.trans (first : Run step ok s₀ pre s) (second : Run step ok s post s') :
    Run step ok s₀ (pre ++ post) s' := by
  induction second with
  | nil => simpa using first
  | snoc _ admitted taken ih =>
      rw [← List.append_assoc]
      exact .snoc ih admitted taken

/-- A run along `pre ++ post` passes through a state after `pre`. -/
theorem Run.split (run : Run step ok s₀ (pre ++ post) s') :
    ∃ s, Run step ok s₀ pre s ∧ Run step ok s post s' := by
  induction post using List.reverseRecOn generalizing s' with
  | nil => exact ⟨s', by simpa using run, .nil⟩
  | append_singleton post l ih =>
      rw [← List.append_assoc] at run
      obtain ⟨s, before, admitted, taken⟩ := run.of_snoc
      obtain ⟨mid, left, right⟩ := ih before
      exact ⟨mid, left, .snoc right admitted taken⟩

/-- The first step of a run. -/
theorem Run.cons_iff :
    Run step ok s₀ (l :: ls) s' ↔ ∃ s, ok s₀ l ∧ step s₀ l = some s ∧ Run step ok s ls s' := by
  constructor
  · intro run
    obtain ⟨s, first, rest⟩ : ∃ s, Run step ok s₀ [l] s ∧ Run step ok s ls s' := run.split
    obtain ⟨_, start, admitted, taken⟩ : ∃ m, Run step ok s₀ [] m ∧ ok m l ∧ step m l = some s :=
      first.of_snoc
    cases start.eq_nil
    exact ⟨s, admitted, taken, rest⟩
  · intro ⟨s, admitted, taken, rest⟩
    have first : Run step ok s₀ ([] ++ [l]) s := .snoc .nil admitted taken
    exact first.trans rest

/-- The labels determine the state a run ends in. -/
theorem Run.unique {s₁ s₂ : σ} (left : Run step ok s₀ ls s₁) (right : Run step ok' s₀ ls s₂) :
    s₁ = s₂ := by
  induction left generalizing s₂ with
  | nil => exact right.eq_nil.symm
  | snoc _ _ taken ih =>
      obtain ⟨mid, before, _, taken'⟩ := right.of_snoc
      cases ih before
      exact Option.some.inj (taken.symm.trans taken')

theorem StepOf.append (st : StepOf step ok s₀ ls pre s l s') (more : List α) :
    StepOf step ok s₀ (ls ++ more) pre s l s' := by
  obtain ⟨⟨post, eq⟩, rest⟩ := st
  exact ⟨⟨post ++ more, by rw [eq]; simp⟩, rest⟩

theorem StepOf.last (run : Run step ok s₀ ls s) (admitted : ok s l) (taken : step s l = some s') :
    StepOf step ok s₀ (ls ++ [l]) ls s l s' :=
  ⟨⟨[], rfl⟩, run, admitted, taken⟩

theorem StepOf.mem (st : StepOf step ok s₀ ls pre s l s') : l ∈ ls := by
  obtain ⟨⟨post, rfl⟩, _⟩ := st
  simp

/-- The steps of the second part of a run are steps of the run. -/
theorem StepOf.shift {m : σ} {first : List α} (before : Run step ok s₀ first m)
    (st : StepOf step ok m ls pre s l s') :
    StepOf step ok s₀ (first ++ ls) (first ++ pre) s l s' := by
  obtain ⟨⟨post, rfl⟩, run, admitted, taken⟩ := st
  exact ⟨⟨post, by simp⟩, before.trans run, admitted, taken⟩

/-- A step of a run is its last one or a step of the run before. -/
theorem StepOf.cases {s₁ s₂ : σ} {l₁ : α} (before : Run step ok s₀ ls s)
    (st : StepOf step ok s₀ (ls ++ [l]) pre s₁ l₁ s₂) :
    StepOf step ok s₀ ls pre s₁ l₁ s₂ ∨ (s₁ = s ∧ l₁ = l) := by
  obtain ⟨⟨post, eq⟩, run, admitted, taken⟩ := st
  rcases concat_eq_append_cons_iff.mp eq with ⟨rfl, rfl, _⟩ | ⟨rest, _, rfl⟩
  · exact Or.inr ⟨run.unique before, rfl⟩
  · exact Or.inl ⟨⟨rest, rfl⟩, run, admitted, taken⟩

/-- **Exact condition rule.** If each step keeps a property exactly when a condition on the
step holds, a run keeps it exactly when all of its steps meet the condition. -/
theorem Run.iff_steps {P : σ → Prop} {C : σ → α → Prop} (start : P s₀)
    (keep : ∀ ls s l s', Run step ok s₀ ls s → step s l = some s' → (P s' ↔ P s ∧ C s l))
    (run : Run step ok s₀ ls s) :
    P s ↔ ∀ pre s₁ l s₂, StepOf step ok s₀ ls pre s₁ l s₂ → C s₁ l := by
  induction run with
  | nil =>
      refine ⟨fun _ pre s₁ l s₂ st => ?_, fun _ => start⟩
      have := st.mem
      simp at this
  | @snoc ls s s' l before admitted taken ih =>
      rw [keep ls s l s' before taken, ih]
      constructor
      · rintro ⟨earlier, last⟩ pre s₁ l₁ s₂ st
        rcases st.cases before with old | ⟨rfl, rfl⟩
        · exact earlier pre s₁ l₁ s₂ old
        · exact last
      · intro all
        exact ⟨fun pre s₁ l₁ s₂ st => all pre s₁ l₁ s₂ (st.append [l]),
          all ls s l s' (.last before admitted taken)⟩

/-- **Exact condition rule, for all states of a run.** If a step from a state with a property
leads to one with it exactly when a condition on the step holds, every state of a run has the
property exactly when all of its steps meet the condition. -/
theorem Run.forall_iff_steps {P : σ → Prop} {C : σ → α → Prop} (start : P s₀)
    (keep : ∀ ls s l s', Run step ok s₀ ls s → P s → step s l = some s' → (P s' ↔ C s l)) :
    (∀ pre s, pre <+: ls → Run step ok s₀ pre s → P s) ↔
      ∀ pre s l s', StepOf step ok s₀ ls pre s l s' → C s l := by
  constructor
  · rintro all pre s l s' ⟨⟨post, rfl⟩, before, admitted, taken⟩
    have after : P s' := by
      refine all (pre ++ [l]) s' ⟨post, ?_⟩ (.snoc before admitted taken)
      rw [List.append_assoc, List.singleton_append]
    exact (keep pre s l s' before (all pre s (List.prefix_append _ _) before) taken).mp after
  · intro all pre s inside run
    induction run with
    | nil => exact start
    | @snoc pre s s' l before admitted taken ih =>
        obtain ⟨post, rfl⟩ := inside
        refine (keep pre s l s' before (ih ?_) taken).mpr
          (all pre s l s' ⟨⟨post, ?_⟩, before, admitted, taken⟩)
        · rw [List.append_assoc]
          exact List.prefix_append _ _
        · rw [List.append_assoc, List.singleton_append]

/-! ## Runs by evaluation -/

/-- Take the labels one after the other, stopping at one that `ok` does not admit. -/
def exec (step : σ → α → Option σ) (ok : σ → α → Prop) [∀ s l, Decidable (ok s l)] :
    σ → List α → Option σ
  | s, [] => some s
  | s, l :: ls => if ok s l then (step s l).bind fun s' => exec step ok s' ls else none

theorem Run.of_exec [∀ s l, Decidable (ok s l)] (found : exec step ok s₀ ls = some s) :
    Run step ok s₀ ls s := by
  induction ls generalizing s₀ with
  | nil =>
      cases Option.some.inj found
      exact .nil
  | cons l ls ih =>
      simp only [exec] at found
      split at found
      · rename_i admitted
        obtain ⟨mid, taken, rest⟩ := Option.bind_eq_some_iff.mp found
        have first : Run step ok s₀ ([] ++ [l]) mid := .snoc .nil admitted taken
        exact first.trans (ih rest)
      · cases found

/-- A run to a state with a property is found by evaluation. -/
theorem Run.exists_of_exec [∀ s l, Decidable (ok s l)] {P : σ → Prop} [DecidablePred P]
    (found : (exec step ok s₀ ls).any (fun s => P s) = true) :
    ∃ s, Run step ok s₀ ls s ∧ P s := by
  cases reached : exec step ok s₀ ls with
  | none =>
      rw [reached] at found
      cases found
  | some s =>
      rw [reached] at found
      exact ⟨s, .of_exec reached, of_decide_eq_true found⟩

/-- The labels, each with the state it is taken in. -/
def visited (step : σ → α → Option σ) : σ → List α → List (σ × α)
  | _, [] => []
  | s, l :: ls => (s, l) :: ((step s l).map fun s' => visited step s' ls).getD []

theorem StepOf.mem_visited (st : StepOf step ok s₀ ls pre s l s') :
    (s, l) ∈ visited step s₀ ls := by
  obtain ⟨⟨post, rfl⟩, run, _, _⟩ := st
  induction pre generalizing s₀ with
  | nil =>
      cases run.eq_nil
      exact List.mem_cons_self
  | cons first pre ih =>
      obtain ⟨mid, _, taken, rest⟩ := Run.cons_iff.mp run
      refine List.mem_cons_of_mem _ ?_
      rw [taken]
      exact ih rest

end Runs
