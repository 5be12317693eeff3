import ConfidentialCompute.Lib.Runs
import Mathlib.Data.List.DropRight
import Mathlib.Order.Bounds.Basic

/-!
# Windows of a run

Some labels of a run reset what is collected in between: a window ends and the next one begins.
`since` are the labels after the last reset, and `VisitedSince` the states from there on, the one
right after the reset included.

* `Run.isGreatest_peak`: a register that is set to the load by a reset, and raised to the load by
  every other step, is the greatest load of the window.
* `Run.eq_foldl_since`: a register that is cleared by a reset, and changed by the other labels, is
  what these labels make of it.
-/

namespace Runs

universe u v w

variable {σ : Type u} {α : Type v} {β : Type w}

/-- The labels after the last reset. -/
def since (resets : α → Bool) (ls : List α) : List α := ls.rtakeWhile fun l => !resets l

/-- The labels up to the last reset. -/
def upTo (resets : α → Bool) (ls : List α) : List α := ls.rdropWhile fun l => !resets l

/-- The run has been in state `t` since its last reset. -/
def VisitedSince (step : σ → α → Option σ) (ok : σ → α → Prop) (s₀ : σ) (resets : α → Bool)
    (ls : List α) (t : σ) : Prop :=
  ∃ window, window <+: since resets ls ∧ Run step ok s₀ (upTo resets ls ++ window) t

variable {step : σ → α → Option σ} {ok : σ → α → Prop} {s₀ s s' t : σ} {resets : α → Bool}
  {ls : List α} {l : α}

theorem upTo_append_since (resets : α → Bool) (ls : List α) :
    upTo resets ls ++ since resets ls = ls :=
  List.rdropWhile_append_rtakeWhile

theorem since_reset (isReset : resets l = true) : since resets (ls ++ [l]) = [] :=
  List.rtakeWhile_concat_neg _ _ _ (by simp [isReset])

theorem since_other (other : resets l = false) :
    since resets (ls ++ [l]) = since resets ls ++ [l] :=
  List.rtakeWhile_concat_pos _ _ _ (by simp [other])

theorem upTo_reset (isReset : resets l = true) : upTo resets (ls ++ [l]) = ls ++ [l] :=
  List.rdropWhile_concat_neg _ _ _ (by simp [isReset])

theorem upTo_other (other : resets l = false) : upTo resets (ls ++ [l]) = upTo resets ls :=
  List.rdropWhile_concat_pos _ _ _ (by simp [other])

/-- Right after a reset the run has been in one state. -/
theorem visitedSince_reset (run : Run step ok s₀ (ls ++ [l]) s') (isReset : resets l = true) :
    VisitedSince step ok s₀ resets (ls ++ [l]) t ↔ t = s' := by
  unfold VisitedSince
  rw [since_reset isReset, upTo_reset isReset]
  constructor
  · rintro ⟨window, begins, run'⟩
    rw [List.prefix_nil.mp begins, List.append_nil] at run'
    exact run'.unique run
  · rintro rfl
    exact ⟨[], List.prefix_rfl, by rwa [List.append_nil]⟩

/-- Another step adds the state it leads to. -/
theorem visitedSince_other (run : Run step ok s₀ (ls ++ [l]) s') (other : resets l = false) :
    VisitedSince step ok s₀ resets (ls ++ [l]) t ↔
      VisitedSince step ok s₀ resets ls t ∨ t = s' := by
  have whole : upTo resets ls ++ (since resets ls ++ [l]) = ls ++ [l] := by
    rw [← List.append_assoc, upTo_append_since]
  unfold VisitedSince
  rw [since_other other, upTo_other other]
  constructor
  · rintro ⟨window, begins, run'⟩
    rcases List.prefix_concat_iff.mp begins with rfl | begins
    · rw [whole] at run'
      exact Or.inr (run'.unique run)
    · exact Or.inl ⟨window, begins, run'⟩
  · rintro (⟨window, begins, run'⟩ | rfl)
    · exact ⟨window, begins.trans (List.prefix_append _ _), run'⟩
    · exact ⟨since resets ls ++ [l], List.prefix_rfl, by rwa [whole]⟩

theorem visitedSince_nil : VisitedSince step ok s₀ resets [] t ↔ t = s₀ := by
  unfold VisitedSince
  constructor
  · rintro ⟨window, begins, run⟩
    rw [List.prefix_nil.mp begins] at run
    exact run.eq_nil
  · rintro rfl
    exact ⟨[], List.prefix_rfl, .nil⟩

/-- The state in which a run ends is one of its last window. -/
theorem Run.visitedSince (run : Run step ok s₀ ls s) : VisitedSince step ok s₀ resets ls s :=
  ⟨since resets ls, List.prefix_rfl, by rwa [upTo_append_since]⟩

/-- **Peaks.** The peak is not below the load when the next step is taken. -/
theorem Run.isGreatest_peak [LinearOrder β] (load peak : σ → β) (start : peak s₀ = load s₀)
    (reset : ∀ s l s', resets l = true → step s l = some s' → peak s' = load s')
    (other : ∀ ls s l s', Run step ok s₀ ls s → load s ≤ peak s → resets l = false →
      step s l = some s' → peak s' = max (peak s) (load s'))
    (run : Run step ok s₀ ls s) :
    IsGreatest {n | ∃ t, VisitedSince step ok s₀ resets ls t ∧ load t = n} (peak s) := by
  induction run with
  | nil =>
      rw [start]
      refine ⟨⟨s₀, visitedSince_nil.mpr rfl, rfl⟩, ?_⟩
      rintro n ⟨t, visited, rfl⟩
      rw [visitedSince_nil.mp visited]
  | @snoc ls s s' l before admitted taken ih =>
      have run : Run step ok s₀ (ls ++ [l]) s' := .snoc before admitted taken
      cases isReset : resets l with
      | true =>
          rw [reset s l s' isReset taken]
          refine ⟨⟨s', (visitedSince_reset run isReset).mpr rfl, rfl⟩, ?_⟩
          rintro n ⟨t, visited, rfl⟩
          rw [(visitedSince_reset run isReset).mp visited]
      | false =>
          have more : {n | ∃ t, VisitedSince step ok s₀ resets (ls ++ [l]) t ∧ load t = n} =
              {n | ∃ t, VisitedSince step ok s₀ resets ls t ∧ load t = n} ∪ {load s'} := by
            ext n
            constructor
            · rintro ⟨t, visited, rfl⟩
              rcases (visitedSince_other run isReset).mp visited with visited | rfl
              · exact Or.inl ⟨t, visited, rfl⟩
              · exact Or.inr rfl
            · rintro (⟨t, visited, rfl⟩ | rfl)
              · exact ⟨t, (visitedSince_other run isReset).mpr (Or.inl visited), rfl⟩
              · exact ⟨s', (visitedSince_other run isReset).mpr (Or.inr rfl), rfl⟩
          have le : load s ≤ peak s := ih.2 ⟨s, before.visitedSince, rfl⟩
          rw [other ls s l s' before le isReset taken, more]
          exact ih.union isGreatest_singleton

/-- **Registers.** -/
theorem Run.eq_foldl_since (register : σ → β) {init : β} {f : β → α → β}
    (start : register s₀ = init)
    (reset : ∀ s l s', resets l = true → step s l = some s' → register s' = init)
    (other : ∀ s l s', resets l = false → step s l = some s' → register s' = f (register s) l)
    (run : Run step ok s₀ ls s) : register s = (since resets ls).foldl f init := by
  induction run with
  | nil => exact start
  | @snoc ls s s' l before admitted taken ih =>
      cases isReset : resets l with
      | true =>
          rw [reset s l s' isReset taken, since_reset isReset]
          rfl
      | false =>
          rw [other s l s' isReset taken, ih, since_other isReset, List.foldl_append]
          rfl

end Runs
