import Mathlib.Data.List.Basic

/-!
# Objects that are never freed

Objects allocated one after the other stand in a list; a pointer is an index. Allocation
appends (`l ++ [a]`) and an update modifies in place (`l.modify i f`), so a pointer that
leads to an object leads to it for good.

`Grows R New l l'` says how one list of objects follows another: each object is still
there and related by `R` to what it was, and the others satisfy `New`.
-/

namespace Heap

universe u

variable {α : Type u} {l l' l'' : List α} {i j : Nat} {a a' : α} {f : α → α}

theorem getElem?_alloc (l : List α) (a : α) (j : Nat) :
    (l ++ [a])[j]? = if j = l.length then some a else l[j]? := by
  split
  · rename_i last
    rw [last, List.getElem?_concat_length]
  · rename_i other
    rw [List.getElem?_append]
    split
    · rfl
    · rename_i beyond
      rw [List.getElem?_eq_none (by simp; omega), List.getElem?_eq_none (by omega)]

theorem getElem?_modify_of (found : l[i]? = some a) :
    (l.modify i f)[j]? = if j = i then some (f a) else l[j]? := by
  split
  · rename_i same
    rw [same, List.getElem?_modify_eq, found]
    rfl
  · rename_i other
    exact List.getElem?_modify_ne f l (Ne.symm other)

/-- What stands at a pointer after an update stood there before it or is the updated object. -/
theorem of_getElem?_modify (found : (l.modify i f)[j]? = some a') :
    ∃ a, l[j]? = some a ∧ ((j ≠ i ∧ a' = a) ∨ (j = i ∧ a' = f a)) := by
  by_cases same : j = i
  · subst same
    rw [List.getElem?_modify_eq] at found
    obtain ⟨a, old, rfl⟩ := Option.map_eq_some_iff.mp found
    exact ⟨a, old, Or.inr ⟨rfl, rfl⟩⟩
  · rw [List.getElem?_modify_ne f l (Ne.symm same)] at found
    exact ⟨a', found, Or.inl ⟨same, rfl⟩⟩

/-- What holds of every object and of the updated one holds after the update. -/
theorem forall_modify {P : α → Prop} (others : ∀ (j : Nat) (a : α), l[j]? = some a → P a)
    (updated : ∀ a, l[i]? = some a → P (f a)) :
    ∀ (j : Nat) (a : α), (l.modify i f)[j]? = some a → P a := by
  intro j a found
  obtain ⟨old, before, ⟨_, rfl⟩ | ⟨rfl, rfl⟩⟩ := of_getElem?_modify found
  · exact others j a before
  · exact updated old before

/-- What holds of every object and of the new one holds after the allocation. -/
theorem forall_alloc {P : α → Prop} (others : ∀ (j : Nat) (a : α), l[j]? = some a → P a)
    (new : P a) : ∀ (j : Nat) (b : α), (l ++ [a])[j]? = some b → P b := by
  intro j b found
  rw [getElem?_alloc] at found
  split at found
  · cases found
    exact new
  · exact others j b found

theorem lt_of_getElem? (found : l[i]? = some a) : i < l.length :=
  (List.getElem?_eq_some_iff.mp found).1

/-! ## Growth -/

structure Grows (R : α → α → Prop) (New : α → Prop) (l l' : List α) : Prop where
  kept : ∀ (i : Nat) (a : α), l[i]? = some a → ∃ a', l'[i]? = some a' ∧ R a a'
  made : ∀ (i : Nat) (a' : α), l'[i]? = some a' → l[i]? = none → New a'

variable {R : α → α → Prop} {New : α → Prop}

theorem Grows.refl (same : ∀ a, R a a) (l : List α) : Grows R New l l where
  kept i a found := ⟨a, found, same a⟩
  made i a found missing := by
    rw [missing] at found
    cases found

theorem Grows.modify (same : ∀ a, R a a) (follows : ∀ a, l[i]? = some a → R a (f a)) :
    Grows R New l (l.modify i f) where
  kept j a found := by
    by_cases eq : j = i
    · subst eq
      exact ⟨f a, by rw [getElem?_modify_of found, if_pos rfl], follows a found⟩
    · refine ⟨a, ?_, same a⟩
      rw [List.getElem?_modify_ne f l (Ne.symm eq), found]
  made j a' found missing := by
    obtain ⟨a, old, _⟩ := of_getElem?_modify found
    rw [missing] at old
    cases old

theorem Grows.alloc (same : ∀ a, R a a) (new : New a) : Grows R New l (l ++ [a]) where
  kept i a' found := by
    refine ⟨a', ?_, same a'⟩
    rw [getElem?_alloc, if_neg (Nat.ne_of_lt (lt_of_getElem? found)), found]
  made i a' found missing := by
    rw [getElem?_alloc] at found
    split at found
    · cases found
      exact new
    · rw [missing] at found
      cases found

/-- An object of the later list is an old one or new. -/
theorem Grows.cases (grows : Grows R New l l') (found : l'[i]? = some a') :
    (∃ a, l[i]? = some a ∧ R a a') ∨ (l[i]? = none ∧ New a') := by
  cases old : l[i]? with
  | none => exact Or.inr ⟨rfl, grows.made i a' found old⟩
  | some a =>
      obtain ⟨a'', found', related⟩ := grows.kept i a old
      cases found.symm.trans found'
      exact Or.inl ⟨a, rfl, related⟩

/-- Without new objects every object is an old one. -/
theorem Grows.old (grows : Grows R (fun _ => False) l l') (found : l'[i]? = some a') :
    ∃ a, l[i]? = some a ∧ R a a' := by
  rcases grows.cases found with old | ⟨_, absurd⟩
  · exact old
  · exact absurd.elim

end Heap
