import Mathlib.Algebra.GroupWithZero.Nat
import Mathlib.Data.List.Induction
import Mathlib.Data.List.Nodup
import Mathlib.Data.List.Perm.Basic

/-!
# Least recently used first

A cache as the list of its entries, the most recently used one first. No key occurs twice.
Entries have weights; to make room, the last entry is dropped as long as the others and it weigh
too much (`dropOldest`).

When keys are used is told by a list `uses`, the latest use first: `age uses k` is the number of
uses since the latest one of `k`. `Cache.Ordered uses` says that the order of the entries is that
of the latest uses of their keys.
-/

namespace Lru

universe u v

variable {E : Type u} {K : Type v}

/-! ## Weights -/

def total (weight : E → Nat) (l : List E) : Nat := (l.map weight).sum

/-- Drop the last entry while there is one and the rest weighs more than `room`. -/
def dropOldest (weight : E → Nat) (room : Int) (l : List E) : List E :=
  if room < total weight l ∧ l ≠ [] then dropOldest weight room l.dropLast else l
termination_by l.length
decreasing_by
  rename_i more
  rw [List.length_dropLast]
  exact Nat.sub_lt (List.length_pos_of_ne_nil more.2) Nat.one_pos

variable {weight : E → Nat} {room : Int} {l l' : List E} {e : E}

@[simp] theorem total_nil : total weight ([] : List E) = 0 := rfl

@[simp] theorem total_cons (e : E) (l : List E) :
    total weight (e :: l) = weight e + total weight l := by
  simp [total]

@[simp] theorem total_append (l l' : List E) :
    total weight (l ++ l') = total weight l + total weight l' := by
  simp [total]

theorem total_perm (perm : l.Perm l') : total weight l = total weight l' :=
  (perm.map weight).sum_nat

theorem total_le_of_isPrefix (weight : E → Nat) (less : l <+: l') :
    total weight l ≤ total weight l' := by
  obtain ⟨rest, rfl⟩ := less
  rw [total_append]
  exact Nat.le_add_right _ _

theorem dropOldest_isPrefix (weight : E → Nat) (room : Int) (l : List E) :
    dropOldest weight room l <+: l := by
  induction l using List.reverseRecOn with
  | nil =>
      have stops : dropOldest weight room [] = [] := by
        rw [dropOldest, if_neg fun more => more.2 rfl]
      exact ⟨[], by rw [stops, List.append_nil]⟩
  | append_singleton l e ih =>
      rw [dropOldest]
      split
      · rw [List.dropLast_concat]
        exact ih.trans (List.prefix_append l [e])
      · exact List.prefix_rfl

/-- What is left weighs no more than there is room for, unless nothing is left. -/
theorem total_dropOldest (weight : E → Nat) (room : Int) (l : List E) :
    total weight (dropOldest weight room l) ≤ room ∨ dropOldest weight room l = [] := by
  induction l using List.reverseRecOn with
  | nil =>
      rw [dropOldest, if_neg fun more => more.2 rfl]
      exact Or.inr rfl
  | append_singleton l e ih =>
      rw [dropOldest]
      split
      · rw [List.dropLast_concat]
        exact ih
      · rename_i done
        refine Or.inl (Int.not_lt.mp fun heavy => done ⟨heavy, ?_⟩)
        exact List.append_ne_nil_of_right_ne_nil l (List.cons_ne_nil e [])

/-- The number of uses since the latest one of a key. -/
def age [DecidableEq K] (uses : List K) (k : K) : Nat := uses.idxOf k

theorem age_self [DecidableEq K] (uses : List K) (k : K) : age (k :: uses) k = 0 :=
  List.idxOf_cons_self

theorem age_other [DecidableEq K] (uses : List K) {k k' : K} (other : k' ≠ k) :
    age (k :: uses) k' = age uses k' + 1 :=
  List.idxOf_cons_ne uses other.symm

/-- Evictions one after the other, from the entries `l` on, which leave `left`. Each takes the entry
whose latest use is the oldest among those that are there, and with it there would be more than
there is room for. -/
inductive Evicts [DecidableEq K] (key : E → K) (weight : E → Nat) (uses : List K) (room : Int) :
    List E → List E → Prop
  | done {l : List E} : Evicts key weight uses room l l
  | evict {l rest left : List E} {e : E} (there : l.Perm (e :: rest))
      (heavy : room < total weight l) (used : key e ∈ uses)
      (oldest : ∀ e' ∈ rest, age uses (key e') < age uses (key e))
      (more : Evicts key weight uses room rest left) : Evicts key weight uses room l left

/-! ## Caches -/

/-- The entries, the most recently used one first. -/
@[ext] structure Cache (key : E → K) where
  entries : List E
  nodup : (entries.map key).Nodup

namespace Cache

variable {key : E → K} {c c' : Cache key} {uses : List K} {k : K}

def empty : Cache key := ⟨[], List.nodup_nil⟩

/-- A new entry. -/
def add (e : E) (c : Cache key) (fresh : key e ∉ c.entries.map key) : Cache key :=
  ⟨e :: c.entries, List.nodup_cons.mpr ⟨fresh, c.nodup⟩⟩

/-- The entry used least recently is dropped. -/
def dropLast (c : Cache key) : Cache key :=
  ⟨c.entries.dropLast, ((List.dropLast_sublist c.entries).map key).nodup c.nodup⟩

/-- Entries are dropped until the rest fits. -/
def trim (weight : E → Nat) (room : Int) (c : Cache key) : Cache key :=
  ⟨dropOldest weight room c.entries,
    ((dropOldest_isPrefix weight room c.entries).sublist.map key).nodup c.nodup⟩

theorem entries_dropLast (c : Cache key) : c.dropLast.entries = c.entries.dropLast := rfl

theorem entries_add {fresh : key e ∉ c.entries.map key} :
    (c.add e fresh).entries = e :: c.entries := rfl

theorem trim_isPrefix (weight : E → Nat) (room : Int) (c : Cache key) :
    (c.trim weight room).entries <+: c.entries :=
  dropOldest_isPrefix weight room c.entries

theorem total_trim (weight : E → Nat) (room : Int) (c : Cache key) :
    total weight (c.trim weight room).entries ≤ room ∨ (c.trim weight room).entries = [] :=
  total_dropOldest weight room c.entries

theorem trim_of_heavy (heavy : room < total weight c.entries) (more : c.entries ≠ []) :
    c.trim weight room = c.dropLast.trim weight room := by
  apply Cache.ext
  show dropOldest weight room c.entries = dropOldest weight room c.entries.dropLast
  rw [dropOldest, if_pos ⟨heavy, more⟩]

theorem trim_of_fits (fits : ¬ (room < total weight c.entries ∧ c.entries ≠ [])) :
    c.trim weight room = c := by
  apply Cache.ext
  show dropOldest weight room c.entries = c.entries
  rw [dropOldest, if_neg fits]

theorem eq_of_key_eq {e e' : E} (among : e ∈ c.entries) (among' : e' ∈ c.entries)
    (same : key e = key e') : e = e' :=
  List.inj_on_of_nodup_map c.nodup among among' same

section

variable [DecidableEq K]

/-- The entry of a key is used. -/
def touch (k : K) (c : Cache key) : Cache key where
  entries := c.entries.filter (key · = k) ++ c.entries.filter (¬ key · = k)
  nodup := by
    have perm : (c.entries.filter (key · = k) ++ c.entries.filter (¬ key · = k)).Perm
        c.entries := by
      simpa using List.filter_append_perm (key · = k) c.entries
    exact (perm.map key).nodup_iff.mpr c.nodup

theorem entries_touch_perm (k : K) (c : Cache key) : (c.touch k).entries.Perm c.entries := by
  simpa [touch] using List.filter_append_perm (key · = k) c.entries

theorem filter_key_eq (among : e ∈ c.entries) : c.entries.filter (key · = key e) = [e] := by
  have nodup : (c.entries.filter (key · = key e)).Nodup := c.nodup.of_map.filter _
  refine List.perm_singleton.mp ((List.perm_ext_iff_of_nodup nodup (List.nodup_singleton e)).mpr
    fun e' => ?_)
  rw [List.mem_filter, List.mem_singleton, decide_eq_true_eq]
  constructor
  · rintro ⟨among', same⟩
    exact eq_of_key_eq among' among same
  · rintro rfl
    exact ⟨among, rfl⟩

theorem entries_touch (among : e ∈ c.entries) :
    (c.touch (key e)).entries = e :: c.entries.filter (¬ key · = key e) :=
  congrArg (· ++ c.entries.filter (¬ key · = key e)) (filter_key_eq among)

/-! ## The order of the latest uses -/

/-- Every key was used, and a later entry of the list has an older latest use. -/
structure Ordered (uses : List K) (c : Cache key) : Prop where
  used : ∀ e ∈ c.entries, key e ∈ uses
  order : c.entries.Pairwise fun e e' => age uses (key e) < age uses (key e')

theorem ordered_empty (uses : List K) : (empty : Cache key).Ordered uses :=
  ⟨fun _ among => absurd among List.not_mem_nil, List.Pairwise.nil⟩

/-- One more use leaves the order of the other keys. -/
theorem order_cons (others : ∀ e ∈ l, key e ≠ k)
    (order : l.Pairwise fun e e' => age uses (key e) < age uses (key e')) :
    l.Pairwise fun e e' => age (k :: uses) (key e) < age (k :: uses) (key e') := by
  refine order.imp_of_mem fun {e e'} among among' older => ?_
  rw [age_other uses (others e among), age_other uses (others e' among')]
  exact Nat.succ_lt_succ older

/-- The key used last comes first. -/
theorem ordered_cons {l : List E} {nodup : ((e :: l).map key).Nodup}
    (used : ∀ e' ∈ l, key e' ∈ uses)
    (order : l.Pairwise fun e e' => age uses (key e) < age uses (key e')) :
    Ordered (key e :: uses) (⟨e :: l, nodup⟩ : Cache key) := by
  have others : ∀ e' ∈ l, key e' ≠ key e := by
    intro e' among same
    exact (List.nodup_cons.mp nodup).1 (List.mem_map.mpr ⟨e', among, same⟩)
  refine ⟨fun e' among => ?_, List.pairwise_cons.mpr ⟨fun e' among => ?_, order_cons others order⟩⟩
  · rcases List.mem_cons.mp among with rfl | among
    · exact List.mem_cons_self
    · exact List.mem_cons_of_mem _ (used e' among)
  · rw [age_self, age_other uses (others e' among)]
    exact Nat.succ_pos _

theorem ordered_add {fresh : key e ∉ c.entries.map key} (ordered : c.Ordered uses) :
    (c.add e fresh).Ordered (key e :: uses) :=
  ordered_cons ordered.used ordered.order

theorem ordered_touch (among : e ∈ c.entries) (ordered : c.Ordered uses) :
    (c.touch (key e)).Ordered (key e :: uses) := by
  have entries := entries_touch among
  have nodup := (c.touch (key e)).nodup
  rw [entries] at nodup
  have front : Ordered (key e :: uses) (⟨_, nodup⟩ : Cache key) :=
    ordered_cons (fun e' among' => ordered.used e' (List.mem_of_mem_filter among'))
      (ordered.order.filter _)
  exact ⟨by rw [entries]; exact front.used, by rw [entries]; exact front.order⟩

theorem ordered_sublist (less : c'.entries.Sublist c.entries) (ordered : c.Ordered uses) :
    c'.Ordered uses :=
  ⟨fun e among => ordered.used e (less.mem among), ordered.order.sublist less⟩

/-- The last entry is the one whose latest use is the oldest. -/
theorem oldest_of_ordered (ordered : c.Ordered uses) (last : c.entries = l ++ [e]) :
    key e ∈ uses ∧ ∀ e' ∈ l, age uses (key e') < age uses (key e) := by
  constructor
  · refine ordered.used e ?_
    rw [last]
    exact List.mem_append_right l List.mem_cons_self
  · intro e' among
    have order := ordered.order
    rw [last, List.pairwise_append] at order
    exact order.2.2 e' among e List.mem_cons_self

theorem evicts_trim (ordered : c.Ordered uses) :
    Evicts key weight uses room c.entries (c.trim weight room).entries := by
  generalize isLength : c.entries.length = n
  induction n generalizing c with
  | zero =>
      rw [trim_of_fits fun heavy => heavy.2 (List.length_eq_zero_iff.mp isLength)]
      exact .done
  | succ n ih =>
      by_cases heavy : room < total weight c.entries
      · have more : c.entries ≠ [] := List.ne_nil_of_length_eq_add_one isLength
        obtain ⟨e, last⟩ : ∃ e, c.entries = c.dropLast.entries ++ [e] :=
          ⟨_, (List.dropLast_append_getLast more).symm⟩
        obtain ⟨used, oldest⟩ := oldest_of_ordered ordered last
        have less : c.dropLast.entries.length = n := by
          rw [entries_dropLast, List.length_dropLast, isLength, Nat.add_sub_cancel]
        rw [trim_of_heavy heavy more]
        exact .evict ((List.Perm.of_eq last).trans (List.perm_append_singleton _ _)) heavy used
          oldest (ih (ordered_sublist (List.dropLast_sublist _) ordered) less)
      · rw [trim_of_fits fun both => heavy both.1]
        exact .done

end

end Cache

end Lru
