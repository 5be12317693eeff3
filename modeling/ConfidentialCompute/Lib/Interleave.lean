import Mathlib.Data.Bool.Count
import Mathlib.Data.List.Nodup
import Mathlib.Logic.Function.Basic

/-!
# Two calls of one procedure

A procedure takes its steps in a fixed order, and each step works on a register of its own. Two
calls of it that run at the same time interleave freely. A label says which of the two calls
takes a step, and on which register. As both calls work on a register once, what the register
holds in the end depends only on which of them was the last to do so.
-/

namespace Interleave

universe u v

variable {ι : Type u} [DecidableEq ι] {R : ι → Type v} {put : Bool → (i : ι) → R i → R i}
  {steps : List ι} {ls : List (Bool × ι)} {s : (i : ι) → R i} {i : ι} {x : Bool}

/-- `ls` interleaves two calls that take the steps `steps`, in this order. -/
def Merges (steps : List ι) (ls : List (Bool × ι)) : Prop :=
  ∀ call, (ls.filter (·.1 = call)).map Prod.snd = steps

/-- The other call runs first, and `x` after it. -/
def serial (steps : List ι) (x : Bool) : List (Bool × ι) :=
  steps.map (Prod.mk !x) ++ steps.map (Prod.mk x)

/-- `x` comes to the register after the other call. -/
def Last (x : Bool) (i : ι) (ls : List (Bool × ι)) : Prop :=
  [(!x, i), (x, i)].Sublist ls

instance (x : Bool) (i : ι) (ls : List (Bool × ι)) : Decidable (Last x i ls) :=
  inferInstanceAs (Decidable (List.Sublist _ _))

/-- A step turns what its register holds into what `put` says. -/
def write (put : Bool → (i : ι) → R i → R i) (s : (i : ι) → R i) (l : Bool × ι) : (i : ι) → R i :=
  Function.update s l.2 (put l.1 l.2 (s l.2))

/-- The calls that work on a register, in order. -/
def callsAt (i : ι) (ls : List (Bool × ι)) : List Bool := (ls.filter (·.2 = i)).map Prod.fst

theorem foldl_write_apply :
    ls.foldl (write put) s i = (callsAt i ls).foldl (fun v call => put call i v) (s i) := by
  induction ls generalizing s with
  | nil => rfl
  | cons l ls ih =>
      obtain ⟨call, j⟩ := l
      rw [List.foldl_cons, ih]
      by_cases here : j = i
      · subst here
        simp [callsAt, write]
      · simp [callsAt, write, here, Ne.symm here]

theorem count_callsAt (call : Bool) : (callsAt i ls).count call = ls.count (call, i) := by
  induction ls with
  | nil => rfl
  | cons l ls ih =>
      obtain ⟨call', j⟩ := l
      by_cases here : j = i
      · subst here
        simpa [callsAt, List.count_cons] using ih
      · simpa [callsAt, List.count_cons, here] using ih

theorem count_of_merges (merges : Merges steps ls) (call : Bool) :
    ls.count (call, i) = steps.count i := by
  rw [← merges call]
  clear merges
  induction ls with
  | nil => rfl
  | cons l ls ih =>
      obtain ⟨call', j⟩ := l
      by_cases mine : call' = call
      · subst mine
        simpa [List.count_cons] using ih
      · simpa [List.count_cons, mine] using ih

/-- Both calls come to a register once. -/
theorem callsAt_of_merges (merges : Merges steps ls) (nodup : steps.Nodup) (among : i ∈ steps) :
    ∃ x, callsAt i ls = [!x, x] := by
  have once : ∀ call, (callsAt i ls).count call = 1 := fun call => by
    rw [count_callsAt, count_of_merges merges, List.count_eq_one_of_mem nodup among]
  have two : (callsAt i ls).length = 2 := by
    rw [← List.count_not_add_count _ true, once, once]
  obtain ⟨first, second, both⟩ := List.length_eq_two.mp two
  rw [both] at once ⊢
  have distinct : first = !second := by
    revert once
    cases first <;> cases second <;> decide
  exact ⟨second, by rw [distinct]⟩

theorem callsAt_of_not_mem (merges : Merges steps ls) (absent : i ∉ steps) :
    callsAt i ls = [] := by
  have never : ∀ call, call ∉ callsAt i ls := fun call => by
    rw [← List.count_eq_zero, count_callsAt, count_of_merges merges,
      List.count_eq_zero_of_not_mem absent]
  exact List.eq_nil_iff_forall_not_mem.mpr never

theorem last_iff (merges : Merges steps ls) (nodup : steps.Nodup) (among : i ∈ steps) :
    Last x i ls ↔ callsAt i ls = [!x, x] := by
  constructor
  · intro last
    have within : [!x, x].Sublist (callsAt i ls) := by
      simpa [callsAt] using (last.filter (·.2 = i)).map Prod.fst
    obtain ⟨y, both⟩ := callsAt_of_merges merges nodup among
    rw [both] at within ⊢
    exact (within.eq_of_length rfl).symm
  · intro both
    have here : ls.filter (·.2 = i) = [(!x, i), (x, i)] := by
      have pairs : (callsAt i ls).map (·, i) = ls.filter (·.2 = i) := by
        rw [callsAt, List.map_map]
        refine (List.map_congr_left fun l among => ?_).trans (List.map_id _)
        have register : l.2 = i := by simpa using (List.mem_filter.mp among).2
        rw [← register]
        rfl
      rw [← pairs, both]
      rfl
    rw [Last, ← here]
    exact List.filter_sublist

omit [DecidableEq ι] in
theorem merges_serial : Merges steps (serial steps x) := by
  intro call
  have mine : (steps.map (Prod.mk call)).filter (·.1 = call) = steps.map (Prod.mk call) := by
    simp
  have others : (steps.map (Prod.mk !call)).filter (·.1 = call) = [] := by
    simp
  have registers : (steps.map (Prod.mk call)).map Prod.snd = steps := by
    rw [List.map_map]
    exact List.map_id _
  rw [serial, List.filter_append]
  by_cases second : call = x
  · subst second
    rw [mine, others, List.nil_append, registers]
  · have first : x = !call := by revert second; cases call <;> cases x <;> decide
    subst first
    rw [Bool.not_not, mine, others, List.append_nil, registers]

theorem callsAt_serial (nodup : steps.Nodup) (among : i ∈ steps) :
    callsAt i (serial steps x) = [!x, x] := by
  refine (last_iff merges_serial nodup among).mp ?_
  have among' : ∀ call : Bool, [(call, i)].Sublist (steps.map (Prod.mk call)) := fun call =>
    List.singleton_sublist.mpr (List.mem_map_of_mem among)
  exact (among' (!x)).append (among' x)

/-- **Serialisability.** -/
theorem foldl_eq_serial_iff (merges : Merges steps ls) (nodup : steps.Nodup) :
    ls.foldl (write put) s = (serial steps x).foldl (write put) s ↔
      ∀ i ∈ steps, Last x i ls ∨ put x i (put (!x) i (s i)) = put (!x) i (put x i (s i)) := by
  have register : ∀ i ∈ steps,
      (ls.foldl (write put) s i = (serial steps x).foldl (write put) s i ↔
        Last x i ls ∨ put x i (put (!x) i (s i)) = put (!x) i (put x i (s i))) := by
    intro i among
    rw [foldl_write_apply, foldl_write_apply, callsAt_serial nodup among,
      last_iff merges nodup among]
    obtain ⟨y, both⟩ := callsAt_of_merges merges nodup among
    rw [both]
    by_cases same : y = x
    · subst same
      exact iff_of_true rfl (Or.inl rfl)
    · have other : y = !x := by revert same; cases x <;> cases y <;> decide
      subst other
      have notLast : [!!x, !x] ≠ [!x, x] := by cases x <;> decide
      rw [or_iff_right notLast, Bool.not_not]
      exact eq_comm
  constructor
  · intro same i among
    exact (register i among).mp (congrFun same i)
  · intro conflicts
    funext i
    by_cases among : i ∈ steps
    · exact (register i among).mpr (conflicts i among)
    · rw [foldl_write_apply, foldl_write_apply, callsAt_of_not_mem merges among,
        callsAt_of_not_mem merges_serial among]

end Interleave
