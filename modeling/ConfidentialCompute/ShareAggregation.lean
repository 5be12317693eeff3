import ConfidentialCompute.Enclave.Recovery
import Mathlib.Data.Finset.Card
import Mathlib.Data.List.Nodup

/-!
# Aggregation of decryption shares

The combiner reads the shares one after the other, sets aside those that do not parse or do
not verify, and stops at the first `threshold` that do. What it stops at is a number of
shares and not a number of share holders: a share that came twice is taken twice, and the
library then refuses the whole set.
-/

namespace ConfidentialCompute

open Go

/-- The functions of `tdh2easy` that the combiner calls. -/
structure Tdh2Easy (PublicKey Ciphertext DecryptionShare : Type) where
  unmarshalPublicKey : Slice UInt8 → Except String PublicKey
  unmarshalVerify : Slice UInt8 → PublicKey → Except String Ciphertext
  unmarshalShare : Slice UInt8 → Except String DecryptionShare
  verifyShare : Ciphertext → PublicKey → DecryptionShare → Except String Unit
  /-- `Aggregate c shares n`. -/
  aggregate : Ciphertext → List DecryptionShare → Nat → Except String (Slice UInt8)

structure InvalidShare where
  index : Nat
  err : String

/-- The two lists that the loop over the shares fills. -/
structure Gathered (DecryptionShare : Type) where
  decShares : List DecryptionShare
  invalidShares : List InvalidShare

namespace Tdh2Easy

variable {PublicKey Ciphertext DecryptionShare : Type}
  (t : Tdh2Easy PublicKey Ciphertext DecryptionShare)

/-- The loop over the shares, from share `i` on. -/
def gather (ciphertext : Ciphertext) (publicKey : PublicKey) (threshold : Int) :
    Nat → List (Slice UInt8) → Gathered DecryptionShare → Gathered DecryptionShare
  | _, [], gathered => gathered
  | i, s :: rest, gathered =>
      match t.unmarshalShare s with
      | .error err =>
          gather ciphertext publicKey threshold (i + 1) rest
            { gathered with invalidShares := gathered.invalidShares ++ [⟨i, err⟩] }
      | .ok share =>
          match t.verifyShare ciphertext publicKey share with
          | .error err =>
              gather ciphertext publicKey threshold (i + 1) rest
                { gathered with invalidShares := gathered.invalidShares ++ [⟨i, err⟩] }
          | .ok () =>
              -- A threshold below one is never met, and the loop reads every share.
              if (gathered.decShares.length + 1 : Nat) = threshold then
                { gathered with decShares := gathered.decShares ++ [share] }
              else
                gather ciphertext publicKey threshold (i + 1) rest
                  { gathered with decShares := gathered.decShares ++ [share] }

def errDetails (invalidShares : List InvalidShare) : String :=
  if invalidShares.isEmpty then "none"
  else invalidShares.foldl
    (fun details is => details ++ "share " ++ toString is.index ++ ": " ++ is.err ++ "; ") ""

/-- `TDH2AggregateDecryptionShares`. -/
def tdh2AggregateDecryptionShares (ciphertext : Ciphertext) (shares : List (Slice UInt8))
    (publicKey : PublicKey) (threshold : Int) : Except String (Slice UInt8) :=
  let gathered := t.gather ciphertext publicKey threshold 0 shares ⟨[], []⟩
  if (gathered.decShares.length : Int) < threshold then
    .error ("not enough valid shares to decrypt (" ++ toString gathered.decShares.length ++ "/" ++
      toString threshold ++ "). invalid shares: " ++ errDetails gathered.invalidShares)
  else
    match t.aggregate ciphertext gathered.decShares gathered.decShares.length with
    | .error err => .error ("cannot decrypt payload: " ++ err)
    | .ok decrypted => .ok decrypted

/-- `AggregateShares` of `tdh2EasyCombiner`. -/
def aggregateShares (ciphertext : Slice UInt8) (shares : List (Slice UInt8))
    (tdh2PublicKeyBytes : Slice UInt8) (threshold : Int) : Except String (Slice UInt8) :=
  match t.unmarshalPublicKey tdh2PublicKeyBytes with
  | .error err => .error ("cannot unmarshal public key: " ++ err)
  | .ok publicKey =>
      match t.unmarshalVerify ciphertext publicKey with
      | .error err => .error ("cannot unmarshal ciphertext: " ++ err)
      | .ok ctxt =>
          match t.tdh2AggregateDecryptionShares ctxt shares publicKey threshold with
          | .error err => .error ("failed to aggregate decryption shares: " ++ err)
          | .ok decrypted => .ok decrypted

/-! ## The shares that are handed over -/

/-- The share in a text, when it parses and verifies. -/
def accepted (ciphertext : Ciphertext) (publicKey : PublicKey) (s : Slice UInt8) :
    Option DecryptionShare :=
  match t.unmarshalShare s with
  | .error _ => none
  | .ok share =>
      match t.verifyShare ciphertext publicKey share with
      | .error _ => none
      | .ok () => some share

theorem accepted_eq_some_iff {ciphertext : Ciphertext} {publicKey : PublicKey}
    {s : Slice UInt8} {share : DecryptionShare} :
    t.accepted ciphertext publicKey s = some share ↔
      t.unmarshalShare s = .ok share ∧ t.verifyShare ciphertext publicKey share = .ok () := by
  unfold accepted
  cases parsed : t.unmarshalShare s with
  | error err => simp
  | ok found =>
      cases verified : t.verifyShare ciphertext publicKey found with
      | error err =>
          simp only [verified, reduceCtorEq, Except.ok.injEq, false_iff, not_and]
          rintro rfl
          rw [verified]
          exact nofun
      | ok _ =>
          simp only [verified, Option.some.injEq, Except.ok.injEq]
          exact ⟨fun same => ⟨same, same ▸ verified⟩, And.left⟩

/-- The loop takes accepted shares in their order and stops at the threshold. -/
theorem gather_decShares (ciphertext : Ciphertext) (publicKey : PublicKey) {threshold : Nat}
    (shares : List (Slice UInt8)) (i : Nat) (gathered : Gathered DecryptionShare)
    (below : gathered.decShares.length < threshold) :
    (t.gather ciphertext publicKey threshold i shares gathered).decShares =
      (gathered.decShares ++
        shares.filterMap (t.accepted ciphertext publicKey)).take threshold := by
  induction shares generalizing i gathered with
  | nil =>
      rw [List.filterMap_nil, List.append_nil, List.take_of_length_le below.le]
      rfl
  | cons s rest ih =>
      unfold gather
      rw [List.filterMap_cons, accepted]
      cases t.unmarshalShare s with
      | error err => exact ih _ _ below
      | ok share =>
          dsimp only
          cases t.verifyShare ciphertext publicKey share with
          | error err => exact ih _ _ below
          | ok _ =>
              dsimp only
              have length_append : (gathered.decShares ++ [share]).length =
                  gathered.decShares.length + 1 := List.length_append
              rw [List.append_cons gathered.decShares share (List.filterMap _ rest)]
              split
              · rename_i full
                have full : (gathered.decShares ++ [share]).length = threshold := by omega
                rw [List.take_left' full]
              · rename_i more
                apply ih _ ⟨gathered.decShares ++ [share], _⟩
                dsimp only
                omega

/-- With enough accepted shares the outcome is that of the library on the first of them. -/
theorem tdh2AggregateDecryptionShares_eq {ciphertext : Ciphertext} {publicKey : PublicKey}
    {threshold : Nat} (positive : 1 ≤ threshold) {shares : List (Slice UInt8)}
    (enough : threshold ≤ (shares.filterMap (t.accepted ciphertext publicKey)).length) :
    t.tdh2AggregateDecryptionShares ciphertext shares publicKey threshold =
      match t.aggregate ciphertext
        ((shares.filterMap (t.accepted ciphertext publicKey)).take threshold) threshold with
      | .error err => .error ("cannot decrypt payload: " ++ err)
      | .ok decrypted => .ok decrypted := by
  have handed := t.gather_decShares ciphertext publicKey shares 0 ⟨[], []⟩ positive
  rw [List.nil_append] at handed
  have count : (t.gather ciphertext publicKey threshold 0 shares ⟨[], []⟩).decShares.length =
      threshold := by
    rw [handed, List.length_take, min_eq_left enough]
  unfold tdh2AggregateDecryptionShares
  dsimp only
  rw [count, if_neg (lt_irrefl _), handed]

/-! ## Correct shares -/

/-- What is assumed of the library for one ciphertext: `VerifyShare` accepts the correct shares
and no others, and `Aggregate` returns the plaintext for at least `threshold` correct shares of
distinct indices and for nothing else. -/
structure Scheme (ciphertext : Ciphertext) (publicKey : PublicKey)
    (Correct : DecryptionShare → Prop) (index : DecryptionShare → Nat)
    (plaintext : Slice UInt8) (threshold : Nat) : Prop where
  verifies : ∀ share, t.verifyShare ciphertext publicKey share = .ok () ↔ Correct share
  combines : ∀ shares : List DecryptionShare,
    t.aggregate ciphertext shares shares.length = .ok plaintext ↔
      (∀ share ∈ shares, Correct share) ∧ threshold ≤ shares.length ∧
        (shares.map index).Nodup

/-- The list holds correct shares of at least `threshold` distinct indices. -/
def HoldsEnough (Correct : DecryptionShare → Prop) (index : DecryptionShare → Nat)
    (shares : List (Slice UInt8)) (threshold : Nat) : Prop :=
  ∃ indices : Finset Nat, threshold ≤ indices.card ∧
    ∀ i ∈ indices, ∃ s ∈ shares, ∃ share,
      t.unmarshalShare s = .ok share ∧ Correct share ∧ index share = i

/-- The first `threshold` shares that parse and verify have pairwise distinct indices. -/
def LeadDistinct (ciphertext : Ciphertext) (publicKey : PublicKey)
    (index : DecryptionShare → Nat) (shares : List (Slice UInt8)) (threshold : Nat) : Prop :=
  (((shares.filterMap (t.accepted ciphertext publicKey)).take threshold).map index).Nodup

variable {t} {ciphertext : Ciphertext} {publicKey : PublicKey}
  {Correct : DecryptionShare → Prop} {index : DecryptionShare → Nat} {plaintext : Slice UInt8}
  {threshold : Nat} {shares : List (Slice UInt8)}

theorem Scheme.length_accepted
    (scheme : t.Scheme ciphertext publicKey Correct index plaintext threshold)
    (held : t.HoldsEnough Correct index shares threshold) :
    threshold ≤ (shares.filterMap (t.accepted ciphertext publicKey)).length := by
  obtain ⟨indices, many, covered⟩ := held
  have sub : indices ⊆
      ((shares.filterMap (t.accepted ciphertext publicKey)).map index).toFinset := by
    intro i member
    obtain ⟨s, listed, share, parsed, correct, rfl⟩ := covered i member
    rw [List.mem_toFinset]
    apply List.mem_map_of_mem
    rw [List.mem_filterMap]
    exact ⟨s, listed, t.accepted_eq_some_iff.mpr ⟨parsed, (scheme.verifies share).mpr correct⟩⟩
  calc threshold ≤ indices.card := many
    _ ≤ _ := Finset.card_le_card sub
    _ ≤ ((shares.filterMap (t.accepted ciphertext publicKey)).map index).length :=
      List.toFinset_card_le _
    _ = _ := List.length_map _

theorem Scheme.correct_of_accepted
    (scheme : t.Scheme ciphertext publicKey Correct index plaintext threshold)
    {share : DecryptionShare}
    (member : share ∈ shares.filterMap (t.accepted ciphertext publicKey)) : Correct share := by
  obtain ⟨s, -, found⟩ := List.mem_filterMap.mp member
  exact (scheme.verifies share).mp (t.accepted_eq_some_iff.mp found).2

theorem Scheme.aggregate_iff
    (scheme : t.Scheme ciphertext publicKey Correct index plaintext threshold)
    (enough : threshold ≤ (shares.filterMap (t.accepted ciphertext publicKey)).length) :
    t.aggregate ciphertext
        ((shares.filterMap (t.accepted ciphertext publicKey)).take threshold) threshold =
        .ok plaintext ↔
      t.LeadDistinct ciphertext publicKey index shares threshold := by
  have count : ((shares.filterMap (t.accepted ciphertext publicKey)).take threshold).length =
      threshold := by
    rw [List.length_take, min_eq_left enough]
  have combined := scheme.combines
    ((shares.filterMap (t.accepted ciphertext publicKey)).take threshold)
  rw [count] at combined
  rw [combined]
  constructor
  · rintro ⟨-, -, distinct⟩
    exact distinct
  · intro distinct
    exact ⟨fun share taken => scheme.correct_of_accepted (List.mem_of_mem_take taken), le_rfl,
      distinct⟩

/-- A list with enough correct shares gives the plaintext when the shares that fill the
threshold come from distinct holders, and not otherwise. -/
theorem aggregation_iff_distinct
    (scheme : t.Scheme ciphertext publicKey Correct index plaintext threshold)
    (positive : 1 ≤ threshold) (held : t.HoldsEnough Correct index shares threshold) :
    t.tdh2AggregateDecryptionShares ciphertext shares publicKey threshold = .ok plaintext ↔
      t.LeadDistinct ciphertext publicKey index shares threshold := by
  have enough := scheme.length_accepted held
  rw [t.tdh2AggregateDecryptionShares_eq positive enough, ← scheme.aggregate_iff enough]
  cases t.aggregate ciphertext
    ((shares.filterMap (t.accepted ciphertext publicKey)).take threshold) threshold with
  | error err => exact ⟨nofun, nofun⟩
  | ok decrypted => exact Iff.rfl

end Tdh2Easy

/-! ## A scheme to evaluate -/

namespace Sample

/-- A share is its index, zero is the index of no holder, and two holders are needed. -/
def tdh2 : Tdh2Easy Unit (Slice UInt8) UInt8 where
  unmarshalPublicKey _ := .ok ()
  unmarshalVerify ciphertext _ := .ok ciphertext
  unmarshalShare s :=
    match s.data with
    | [holder] => .ok holder
    | _ => .error "malformed share"
  verifyShare _ _ holder := if holder = 0 then .error "invalid share" else .ok ()
  aggregate ciphertext shares _ :=
    if shares.all (· != 0) = true ∧ 2 ≤ shares.length ∧ (shares.map UInt8.toNat).Nodup then
      .ok ciphertext
    else .error "not enough distinct shares"

theorem tdh2_scheme (ciphertext : Slice UInt8) :
    tdh2.Scheme ciphertext () (· ≠ 0) UInt8.toNat ciphertext 2 where
  verifies holder := by
    show (if holder = 0 then _ else _) = _ ↔ _
    split <;> simp_all
  combines shares := by
    have correct : (∀ holder ∈ shares, holder ≠ 0) ↔ shares.all (· != 0) = true := by simp
    rw [correct]
    show (if _ then Except.ok ciphertext else _) = _ ↔ _
    split
    · rename_i combined
      exact ⟨fun _ => combined, fun _ => rfl⟩
    · rename_i refused
      exact ⟨nofun, fun combined => (refused combined).elim⟩

theorem tdh2_holdsEnough {shares : List (Slice UInt8)} (first : one 1 ∈ shares)
    (second : one 2 ∈ shares) : tdh2.HoldsEnough (· ≠ 0) UInt8.toNat shares 2 := by
  refine ⟨{1, 2}, le_of_eq rfl, ?_⟩
  intro i member
  rcases Finset.mem_insert.mp member with rfl | member
  · exact ⟨one 1, first, 1, rfl, by decide, rfl⟩
  · rw [Finset.mem_singleton] at member
    exact ⟨one 2, second, 2, rfl, by decide, member ▸ rfl⟩

end Sample

section

open Sample

/-- The share of the first holder comes twice, and before the share of the second. -/
theorem repeated_share_refused :
    tdh2.Scheme (one 7) () (· ≠ 0) UInt8.toNat (one 7) 2 ∧
      tdh2.HoldsEnough (· ≠ 0) UInt8.toNat [one 1, one 1, one 2] 2 ∧
      tdh2.tdh2AggregateDecryptionShares (one 7) [one 1, one 1, one 2] () 2 =
        .error "cannot decrypt payload: not enough distinct shares" :=
  ⟨tdh2_scheme _, tdh2_holdsEnough (by simp) (by simp), by decide +kernel⟩

/-- An invalid share before the two and a repeated one after them do no harm. -/
theorem surrounded_shares_aggregate :
    tdh2.tdh2AggregateDecryptionShares (one 7) [one 0, one 2, one 1, one 2] () (2 : Nat) =
        .ok (one 7) :=
  (Tdh2Easy.aggregation_iff_distinct (tdh2_scheme (one 7)) (by decide)
    (tdh2_holdsEnough (by simp) (by simp))).mpr (by
      unfold Tdh2Easy.LeadDistinct
      decide)

end

/-! ## The share sets of a batch -/

section

variable {PublicKey Ciphertext DecryptionShare : Type}

/-- The primitives of the enclave with `AggregateShares` as its combiner. -/
def Platform.withCombiner (p : Platform) (t : Tdh2Easy PublicKey Ciphertext DecryptionShare) :
    Platform where
  toCrypto := p.toCrypto
  boxOpenAnonymous := p.boxOpenAnonymous
  aggregateShares ciphertext shares publicKey threshold :=
    t.aggregateShares ciphertext shares publicKey threshold
  domainHashPreimage := p.domainHashPreimage

variable {p : Platform} {t : Tdh2Easy PublicKey Ciphertext DecryptionShare}
  {masterPublicKey : Slice UInt8} {publicKey : PublicKey} {threshold : Nat}

/-- A ciphertext with the shares of a node for it: the ciphertext parses, and enough of the
shares are correct, those that fill the threshold coming from distinct holders. -/
def Tdh2Easy.Recovers (t : Tdh2Easy PublicKey Ciphertext DecryptionShare)
    (publicKey : PublicKey) (threshold : Nat) (ciphertext : Slice UInt8)
    (shares : List (Slice UInt8)) : Prop :=
  ∃ ctxt Correct index plaintext, t.unmarshalVerify ciphertext publicKey = .ok ctxt ∧
    t.Scheme ctxt publicKey Correct index plaintext threshold ∧
    t.HoldsEnough Correct index shares threshold ∧
    t.LeadDistinct ctxt publicKey index shares threshold

theorem aggregateShares_of_recovers (positive : 1 ≤ threshold)
    (parsed : t.unmarshalPublicKey masterPublicKey = .ok publicKey) {ciphertext : Slice UInt8}
    {shares : List (Slice UInt8)} (recovers : t.Recovers publicKey threshold ciphertext shares) :
    ∃ secret, t.aggregateShares ciphertext shares masterPublicKey threshold = .ok secret := by
  obtain ⟨ctxt, Correct, index, plaintext, read, scheme, held, distinct⟩ := recovers
  have decrypted : t.tdh2AggregateDecryptionShares ctxt shares publicKey threshold =
      .ok plaintext := by
    rw [t.tdh2AggregateDecryptionShares_eq positive (scheme.length_accepted held),
      (scheme.aggregate_iff (scheme.length_accepted held)).mpr distinct]
  refine ⟨plaintext, ?_⟩
  unfold Tdh2Easy.aggregateShares
  rw [parsed]
  dsimp only
  rw [read]
  dsimp only
  rw [decrypted]

/-- With the combiner of the enclave, share sets of distinct holders aggregate. -/
theorem aggregates_of_distinct (positive : 1 ≤ threshold)
    (parsed : t.unmarshalPublicKey masterPublicKey = .ok publicKey) {kp : BoxKeypair} {now : Int}
    {ciphertexts : List (Slice UInt8)} {sets : List (Slice (Slice UInt8))}
    (recover : List.Forall₂
      (fun ciphertext shares => t.Recovers publicKey threshold ciphertext
        (decryptShares (p.withCombiner t) kp now shares)) ciphertexts sets) :
    Aggregates (p.withCombiner t) kp now masterPublicKey threshold ciphertexts sets :=
  recover.imp fun _ _ recovers =>
    let ⟨secret, aggregated⟩ := aggregateShares_of_recovers positive parsed recovers
    ⟨_, secret, opened_iff.mpr rfl, aggregated⟩

end

end ConfidentialCompute
