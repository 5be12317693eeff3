import Mathlib.Data.List.Pairwise
import Mathlib.Data.List.Nodup

/-!
# Queues in order of arrival

A queue changes in steps. In a step some of its members leave, from any place, and at most one
newcomer joins at the end. What a member's place in the queue says is when it came: members stand
in the order of the steps at which they arrived, where one who left and came back counts from the
return.
-/

namespace Arrivals

universe u

variable {K : Type u}

/-- Some members leave, and a newcomer may join at the end. -/
inductive Change (queue : List K) : List K → Prop
  | left {rest : List K} : rest.Sublist queue → Change queue rest
  | joined {rest : List K} {k : K} : rest.Sublist queue → k ∉ queue → Change queue (rest ++ [k])

/-- Step `i` brought `k`, who has been present since, up to the state after `n` steps. -/
def ArrivedAt (present : Nat → K → Prop) (n : Nat) (k : K) (i : Nat) : Prop :=
  i < n ∧ ¬ present i k ∧ ∀ j, i < j → j ≤ n → present j k

/-- Every member of the queue arrived at some step, and earlier ones stand before later ones. -/
structure Ordered (present : Nat → K → Prop) (n : Nat) (queue : List K) : Prop where
  arrived : ∀ k ∈ queue, ∃ i, ArrivedAt present n k i
  inOrder : queue.Pairwise fun a b =>
    ∀ i j, ArrivedAt present n a i → ArrivedAt present n b j → i < j

variable {present : Nat → K → Prop} {n i j : Nat} {k : K} {queue queue' : List K}

theorem ArrivedAt.succ (arrived : ArrivedAt present n k i) (still : present (n + 1) k) :
    ArrivedAt present (n + 1) k i := by
  rcases arrived with ⟨below, absent, since⟩
  refine ⟨by omega, absent, fun j after le => ?_⟩
  rcases Nat.le_succ_iff.mp le with le | last
  · exact since j after le
  · exact last ▸ still

/-- Who was there before the last step did not come with it. -/
theorem ArrivedAt.of_succ (arrived : ArrivedAt present (n + 1) k i) (before : present n k) :
    ArrivedAt present n k i := by
  rcases arrived with ⟨below, absent, since⟩
  have other : i ≠ n := by
    rintro rfl
    exact absent before
  exact ⟨by omega, absent, fun j after le => since j after (by omega)⟩

/-- Who was not there before the last step came with it. -/
theorem ArrivedAt.eq_last (arrived : ArrivedAt present (n + 1) k i) (absent : ¬ present n k) :
    i = n := by
  rcases arrived with ⟨below, _, since⟩
  by_contra other
  exact absent (since n (by omega) (by omega))

theorem arrivedAt_last (absent : ¬ present n k) (now : present (n + 1) k) :
    ArrivedAt present (n + 1) k n := by
  refine ⟨by omega, absent, fun j after le => ?_⟩
  have last : j = n + 1 := by omega
  exact last ▸ now

/-- Those who stay are still in order. -/
theorem Ordered.sublist (ordered : Ordered present n queue) (members : ∀ k, k ∈ queue → present n k)
    (rest : queue'.Sublist queue) (present' : ∀ k ∈ queue', present (n + 1) k) :
    Ordered present (n + 1) queue' where
  arrived k among := by
    rcases ordered.arrived k (rest.subset among) with ⟨i, arrived⟩
    exact ⟨i, arrived.succ (present' k among)⟩
  inOrder := by
    refine (ordered.inOrder.sublist rest).imp_of_mem
      fun {a b} among among' apart i j first second => ?_
    exact apart i j (first.of_succ (members a (rest.subset among)))
      (second.of_succ (members b (rest.subset among')))

/-- One step keeps the order. -/
theorem Ordered.change (ordered : Ordered present n queue) (members : ∀ k, k ∈ queue ↔ present n k)
    (change : Change queue queue') (members' : ∀ k, k ∈ queue' ↔ present (n + 1) k) :
    Ordered present (n + 1) queue' := by
  have before : ∀ k, k ∈ queue → present n k := fun k => (members k).mp
  cases change with
  | left rest => exact ordered.sublist before rest fun k => (members' k).mp
  | @joined rest newcomer stay absent =>
      have stays : ∀ k ∈ rest, present (n + 1) k := fun k among =>
        (members' k).mp (List.mem_append_left _ among)
      have kept := ordered.sublist before stay stays
      have new : ¬ present n newcomer := fun there => absent ((members newcomer).mpr there)
      have now : present (n + 1) newcomer :=
        (members' newcomer).mp (List.mem_append_right _ List.mem_cons_self)
      refine ⟨fun k among => ?_, ?_⟩
      · rcases List.mem_append.mp among with among | among
        · exact kept.arrived k among
        · cases List.mem_singleton.mp among
          exact ⟨n, arrivedAt_last new now⟩
      · refine List.pairwise_append.mpr ⟨kept.inOrder, List.pairwise_singleton _ _, ?_⟩
        intro a among b isNew i j first second
        cases List.mem_singleton.mp isNew
        have earlier := (first.of_succ (before a (stay.subset among))).1
        rw [second.eq_last new]
        exact earlier

/-- **Order of arrival.** -/
theorem ordered_of_changes (queues : Nat → List K) (start : queues 0 = [])
    (changes : ∀ i, Change (queues i) (queues (i + 1)))
    (members : ∀ i k, k ∈ queues i ↔ present i k) (n : Nat) : Ordered present n (queues n) := by
  induction n with
  | zero =>
      rw [start]
      exact ⟨fun k among => absurd among List.not_mem_nil, List.Pairwise.nil⟩
  | succ n ih => exact ih.change (members n) (changes n) (members (n + 1))

end Arrivals
