import Mathlib.Data.Finset.Card

/-!
# Counting voters

A quorum is counted through digests of the voters' keys: as many distinct digests as
required, each the digest of a voter. Distinct digests come from distinct voters, so the
count is a count of voters, with no assumption on the digest. The converse, that distinct
voters are counted as such, needs the digest to be injective on them.
-/

namespace Quorum

universe u v

variable {α : Type u} {β : Type v} [DecidableEq α]

/-- Distinct digests of things with a property come from as many such things. -/
theorem exists_sources {digest : α → β} {P : α → Prop} {digests : Finset β}
    (covered : ∀ d ∈ digests, ∃ a, digest a = d ∧ P a) :
    ∃ sources : Finset α, digests.card ≤ sources.card ∧ ∀ a ∈ sources, P a := by
  choose source maps holds using covered
  refine ⟨digests.attach.image fun d => source d.1 d.2, ?_, ?_⟩
  · rw [Finset.card_image_of_injective, Finset.card_attach]
    intro d d' same
    dsimp only at same
    apply Subtype.ext
    rw [← maps d.1 d.2, ← maps d'.1 d'.2, same]
  · intro a member
    obtain ⟨d, _, rfl⟩ := Finset.mem_image.mp member
    exact holds d.1 d.2

omit [DecidableEq α] in
/-- Voters whose digests are all counted are counted apart when the digest is injective. -/
theorem card_le_of_digests [DecidableEq β] {digest : α → β} {voters : Finset α}
    {digests : Finset β} (inj : Set.InjOn digest voters)
    (counted : ∀ a ∈ voters, digest a ∈ digests) : voters.card ≤ digests.card :=
  Finset.card_le_card_of_injOn digest (fun a member => counted a member) inj

omit [DecidableEq α] in
/-- More voters than there are faulty ones include one that is not faulty. -/
theorem exists_honest {voters faulty : Finset α} {f : Nat} (few : faulty.card ≤ f)
    (many : f + 1 ≤ voters.card) : ∃ a ∈ voters, a ∉ faulty :=
  Finset.exists_mem_notMem_of_card_lt_card (by omega)

end Quorum
