import ConfidentialCompute.Lib.Go

/-!
# Sorting by bytes

`slices.SortFunc` with `bytes.Compare` sorts by a total order. A sorted list is determined by its
elements as long as no two of them compare as equal, so the order in which they were given does
not matter, and two lists sort to one exactly when they have the same elements.
-/

namespace Go

/-! ## The order -/

theorem bytesLE_total : ∀ as bs : Bytes, bytesLE as bs = true ∨ bytesLE bs as = true
  | [], _ => Or.inl rfl
  | _ :: _, [] => Or.inr rfl
  | a :: as, b :: bs => by
      rcases Nat.lt_trichotomy a.toNat b.toNat with lt | same | lt
      · exact Or.inl (by simp [bytesLE, UInt8.lt_iff_toNat_lt, lt])
      · cases UInt8.toNat_inj.mp same
        simpa [bytesLE] using bytesLE_total as bs
      · exact Or.inr (by simp [bytesLE, UInt8.lt_iff_toNat_lt, lt])

theorem bytesLE_trans : ∀ as bs cs : Bytes,
    bytesLE as bs = true → bytesLE bs cs = true → bytesLE as cs = true
  | [], _, _, _, _ => rfl
  | _ :: _, [], _, first, _ => by cases first
  | _ :: _, _ :: _, [], _, second => by cases second
  | a :: as, b :: bs, c :: cs, first, second => by
      simp only [bytesLE, Bool.or_eq_true, Bool.and_eq_true, decide_eq_true_eq,
        beq_iff_eq] at first second ⊢
      rcases first with lt | ⟨rfl, le⟩
      · rcases second with lt' | ⟨rfl, _⟩
        · exact Or.inl (UInt8.lt_trans lt lt')
        · exact Or.inl lt
      · rcases second with lt' | ⟨rfl, le'⟩
        · exact Or.inl lt'
        · exact Or.inr ⟨rfl, bytesLE_trans as bs cs le le'⟩

theorem bytesLE_antisymm : ∀ {as bs : Bytes},
    bytesLE as bs = true → bytesLE bs as = true → as = bs
  | [], [], _, _ => rfl
  | [], _ :: _, _, second => by cases second
  | _ :: _, [], first, _ => by cases first
  | a :: as, b :: bs, first, second => by
      simp only [bytesLE, Bool.or_eq_true, Bool.and_eq_true, decide_eq_true_eq,
        beq_iff_eq] at first second
      rcases first with lt | ⟨rfl, le⟩
      · rcases second with lt' | ⟨rfl, _⟩
        · exact (UInt8.lt_irrefl _ (UInt8.lt_trans lt lt')).elim
        · exact (UInt8.lt_irrefl _ lt).elim
      · rcases second with lt' | ⟨_, le'⟩
        · exact (UInt8.lt_irrefl _ lt').elim
        · rw [bytesLE_antisymm le le']

/-! ## Sorted lists -/

section

variable {α : Type} {le : α → α → Bool} {as bs : List α}

theorem mergeSort_congr (trans : ∀ a b c, le a b = true → le b c = true → le a c = true)
    (total : ∀ a b, (le a b || le b a) = true)
    (antisymm : ∀ a b, a ∈ as → b ∈ as → le a b = true → le b a = true → a = b)
    (perm : as.Perm bs) : as.mergeSort le = bs.mergeSort le := by
  have left := List.mergeSort_perm as le
  have right := List.mergeSort_perm bs le
  refine List.Perm.eq_of_pairwise (fun a b among among' => ?_)
    (List.pairwise_mergeSort trans total as) (List.pairwise_mergeSort trans total bs)
    (left.trans (perm.trans right.symm))
  exact antisymm a b (left.mem_iff.mp among) (perm.mem_iff.mpr (right.mem_iff.mp among'))

theorem mergeSort_eq_iff (trans : ∀ a b c, le a b = true → le b c = true → le a c = true)
    (total : ∀ a b, (le a b || le b a) = true)
    (antisymm : ∀ a b, le a b = true → le b a = true → a = b) :
    as.mergeSort le = bs.mergeSort le ↔ as.Perm bs := by
  constructor
  · intro same
    have left := List.mergeSort_perm as le
    rw [same] at left
    exact left.symm.trans (List.mergeSort_perm bs le)
  · exact mergeSort_congr trans total fun a b _ _ => antisymm a b

end

end Go
