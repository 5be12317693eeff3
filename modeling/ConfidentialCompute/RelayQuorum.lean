import ConfidentialCompute.Lib.Quorum
import ConfidentialCompute.Enclave.Execute
import ConfidentialCompute.Sample
import ConfidentialCompute.SignatureVerifier
import Mathlib.Data.List.Sort

/-!
# Quorum selection in the relay dispatcher

`selectQuorumResult` of the workflows app takes every response the gateway forwards,
counts the distinct valid signers of each group of agreeing responses, and picks a group
backed by `F + 1`. With at most `F` faulty signers only the group the others agree on can
be picked. It is picked whenever it is backed, unless a signature check comes to a
malformed key in the signer list: the check then panics, which the loop does not tolerate.

The gateway's wire types and `RelayResponseSignaturePayload` are third-party code
(`Relay`). The loop also logs; logging is left out.
-/

namespace ConfidentialCompute

open Go

structure Relay extends Crypto where
  /-- `RelayResponseSignaturePayload`: what a relay node signs. -/
  relayResponseSignaturePayload : Bytes32 → Bytes

structure RelayResponseSignature where
  signer : Slice UInt8
  signature : Slice UInt8
deriving DecidableEq

structure RelayEntry where
  sigHash : Bytes32
  groupHash : Bytes32
  signature : RelayResponseSignature
  desc : String
  idx : Nat
deriving DecidableEq

/-! ## Diagnostics -/

def maxDiagLen : Nat := 4096

def shortHash (h : Bytes32) : String := hexString (h.data.take 4)

def shortBytes (b : Bytes) : String := if b.length = 0 then "none" else hexString (b.take 8)

/-- Exact on ASCII text. -/
def truncate (s : String) (max : Nat) : String :=
  if s.length ≤ max then s else String.ofList (s.toList.take max) ++ "...truncated"

def RelayEntry.diag (e : RelayEntry) (outcome : String) : String :=
  let idx := e.idx
  let group := shortHash e.groupHash
  let sig := shortHash e.sigHash
  let desc := e.desc
  s!"[idx={idx} group={group} sigHash={sig} {outcome} {desc}]"

inductive QuorumError where
  | verifierNotConfigured
  | signersNotConfigured
  | notReached (required rawBundleSize hashable valid invalid distinct max : Nat)
      (results entries skipped : String)
deriving DecidableEq

def QuorumError.message : QuorumError → String
  | .verifierNotConfigured => "relay signature verifier not configured"
  | .signersNotConfigured => "DON signer set not configured"
  | .notReached required rawBundleSize hashable valid invalid distinct max results entries
      skipped =>
      s!"no relay-DON result reached quorum: need {required} valid distinct signers (raw bundle {rawBundleSize}, hashable {hashable}, {valid} valid signatures, {invalid} invalid, {distinct} distinct results, max {max} for any single result); signers by result: {results}; entries: {entries}; skipped: {skipped}"

/-! ## Counting -/

structure Tally where
  signersByHash : GoMap Bytes32 (Finset Bytes32)
  firstIdxByHash : GoMap Bytes32 Nat
  validSignatures : Nat
  invalidSignatures : Nat
  diags : List String

def Tally.empty : Tally := ⟨∅, ∅, 0, 0, []⟩

def RelayEntry.verify (relay : Relay) (signers : Slice (Slice UInt8)) (e : RelayEntry) :
    Outcome VerifyError (Slice UInt8) :=
  verifySignature relay.toCrypto (relay.relayResponseSignaturePayload e.sigHash)
    e.signature.signature signers

/-- The groups with the fingerprint of `signer` added to that of `e`. -/
def Tally.add (relay : Relay) (tally : Tally) (e : RelayEntry) (signer : Slice UInt8) : Tally :=
  let fingerprint := relay.sha256 signer.data
  let shown := shortBytes signer.data
  let tally := { tally with
    validSignatures := tally.validSignatures + 1
    diags := tally.diags ++ [e.diag s!"signature=valid signer={shown}"] }
  match tally.signersByHash.lookup e.groupHash with
  | none => { tally with
      signersByHash := tally.signersByHash.insert e.groupHash {fingerprint}
      firstIdxByHash := tally.firstIdxByHash.insert e.groupHash e.idx }
  | some set => { tally with
      signersByHash := tally.signersByHash.insert e.groupHash (insert fingerprint set) }

/-- One turn of the loop over the entries; `none` is a panic. -/
def countEntry (relay : Relay) (signers : Slice (Slice UInt8)) (tally : Tally)
    (e : RelayEntry) : Option Tally :=
  match e.verify relay signers with
  | .panicked => none
  | .err err =>
      let reason := err.message
      let claimed := shortBytes e.signature.signer.data
      some { tally with
        invalidSignatures := tally.invalidSignatures + 1
        diags := tally.diags ++
          [e.diag s!"signature=invalid({reason}) claimedSigner={claimed}"] }
  | .ok signer => some (tally.add relay e signer)

def countEntries (relay : Relay) (signers : Slice (Slice UInt8)) :
    List RelayEntry → Tally → Option Tally
  | [], tally => some tally
  | e :: rest, tally =>
      match countEntry relay signers tally e with
      | none => none
      | some tally => countEntries relay signers rest tally

/-! ## Selection -/

structure Qualified where
  hash : Bytes32
  count : Nat
deriving DecidableEq

/-- Most valid signers first, then the lexicographically smallest hash. -/
def Qualified.before (a b : Qualified) : Bool :=
  if a.count ≠ b.count then b.count < a.count else bytesLE a.hash.data b.hash.data

/-- The number of signers of a group. -/
def Tally.count (tally : Tally) (h : Bytes32) : Nat :=
  ((tally.signersByHash.lookup h).getD ∅).card

/-- The groups that reached quorum, best first; `order` is the order of the `range` loop. -/
def Tally.winners (tally : Tally) (order : MapOrder Bytes32 (Finset Bytes32)) (required : Nat) :
    List Qualified :=
  (((order.keys tally.signersByHash).filter fun h => required ≤ tally.count h).map fun h =>
    ⟨h, tally.count h⟩).insertionSort fun a b => a.before b

def Tally.notReached (tally : Tally) (order : MapOrder Bytes32 (Finset Bytes32))
    (required rawBundleSize hashable : Nat) (skipped : List String) : QuorumError :=
  let keys := order.keys tally.signersByHash
  let lines := keys.map fun h =>
    let group := shortHash h
    let count := tally.count h
    s!"{group}={count}"
  .notReached required rawBundleSize hashable tally.validSignatures tally.invalidSignatures
    keys.length ((keys.map tally.count).foldl max 0)
    (" ".intercalate (lines.insertionSort (· ≤ ·)))
    (truncate (" ".intercalate tally.diags) maxDiagLen)
    (truncate (" ".intercalate skipped) maxDiagLen)

/-- `verifier` says whether the dispatcher was given a signature verifier. -/
def selectQuorumResult (relay : Relay) (verifier : Bool)
    (order : MapOrder Bytes32 (Finset Bytes32)) (rawBundleSize : Nat) (skipped : List String)
    (entries : List RelayEntry) (cfg : EnclaveConfig) : Outcome QuorumError Nat :=
  if ¬ verifier then .err .verifierNotConfigured
  else if cfg.signers.length = 0 then .err .signersNotConfigured
  else
    let required := cfg.f.toNat + 1
    match countEntries relay cfg.signers entries .empty with
    | none => .panicked
    | some tally =>
        match tally.winners order required with
        | [] => .err (tally.notReached order required rawBundleSize entries.length skipped)
        | winner :: _ => .ok ((tally.firstIdxByHash.lookup winner.hash).getD 0)

/-! ## What the loop has counted -/

/-- The tally after the entries `done`: the signers counted for a group are exactly those
who signed one of its entries, and the index kept for it is that of such an entry. -/
structure TallyOf (relay : Relay) (signers : Slice (Slice UInt8)) (done : List RelayEntry)
    (tally : Tally) : Prop where
  counted : ∀ h d, d ∈ (tally.signersByHash.lookup h).getD ∅ ↔
    ∃ e ∈ done, e.groupHash = h ∧ ∃ signer, e.verify relay signers = .ok signer ∧
      relay.sha256 signer.data = d
  first : ∀ h set, tally.signersByHash.lookup h = some set →
    ∃ e ∈ done, tally.firstIdxByHash.lookup h = some e.idx ∧ e.groupHash = h ∧
      ∃ signer, e.verify relay signers = .ok signer

section

variable {relay : Relay} {signers : Slice (Slice UInt8)} {done entries : List RelayEntry}
  {tally tally' : Tally} {e : RelayEntry} {signer : Slice UInt8}

theorem TallyOf.empty : TallyOf relay signers [] .empty where
  counted h d := by simp [Tally.empty]
  first h set found := by simp [Tally.empty] at found

theorem Tally.signersByHash_add (relay : Relay) (tally : Tally) (e : RelayEntry)
    (signer : Slice UInt8) :
    (tally.add relay e signer).signersByHash = tally.signersByHash.insert e.groupHash
      (insert (relay.sha256 signer.data) ((tally.signersByHash.lookup e.groupHash).getD ∅)) := by
  unfold Tally.add
  dsimp only
  split
  · rename_i missing
    rw [missing]
    rfl
  · rename_i set found
    rw [found]
    rfl

theorem TallyOf.add (inv : TallyOf relay signers done tally)
    (verified : e.verify relay signers = .ok signer) :
    TallyOf relay signers (done ++ [e]) (tally.add relay e signer) where
  counted h d := by
    rw [Tally.signersByHash_add, lookup_insert_eq]
    have before := inv.counted h d
    constructor
    · intro member
      split at member
      · rename_i same
        rcases Finset.mem_insert.mp member with rfl | old
        · exact ⟨e, by simp, same.symm, signer, verified, rfl⟩
        · rw [← same] at old
          obtain ⟨e', among, rest⟩ := before.mp old
          exact ⟨e', by simp [among], rest⟩
      · obtain ⟨e', among, rest⟩ := before.mp member
        exact ⟨e', by simp [among], rest⟩
    · rintro ⟨e', among, group, signer', verified', rfl⟩
      rcases List.mem_append.mp among with old | new
      · have counted := before.mpr ⟨e', old, group, signer', verified', rfl⟩
        split
        · rename_i same
          rw [same] at counted
          exact Finset.mem_insert_of_mem counted
        · exact counted
      · cases List.mem_singleton.mp new
        cases verified.symm.trans verified'
        rw [if_pos group.symm]
        exact Finset.mem_insert_self _ _
  first h set found := by
    unfold Tally.add at found ⊢
    dsimp only at found ⊢
    split at found
    · rename_i missing
      simp only at found ⊢
      rw [lookup_insert_eq] at found ⊢
      split at found
      · rename_i same
        exact ⟨e, by simp, by simp [same], same.symm, signer, verified⟩
      · rename_i other
        obtain ⟨e', among, idx, rest⟩ := inv.first h set found
        exact ⟨e', by simp [among], by rw [if_neg other]; exact idx, rest⟩
    · rename_i old present
      simp only at found ⊢
      rw [lookup_insert_eq] at found
      split at found
      · rename_i same
        subst same
        obtain ⟨e', among, rest⟩ := inv.first _ old present
        exact ⟨e', by simp [among], rest⟩
      · obtain ⟨e', among, rest⟩ := inv.first h set found
        exact ⟨e', by simp [among], rest⟩

/-- An entry that does not verify counts for nothing. -/
theorem TallyOf.skip (inv : TallyOf relay signers done tally) {err : VerifyError}
    (refused : e.verify relay signers = .err err) (invalid : Nat) (diags : List String) :
    TallyOf relay signers (done ++ [e])
      { tally with invalidSignatures := invalid, diags := diags } where
  counted h d := by
    rw [inv.counted h d]
    constructor
    · rintro ⟨e', among, rest⟩
      exact ⟨e', by simp [among], rest⟩
    · rintro ⟨e', among, group, signer', verified, digest⟩
      rcases List.mem_append.mp among with old | new
      · exact ⟨e', old, group, signer', verified, digest⟩
      · cases List.mem_singleton.mp new
        rw [refused] at verified
        cases verified
  first h set found := by
    obtain ⟨e', among, rest⟩ := inv.first h set found
    exact ⟨e', by simp [among], rest⟩

theorem TallyOf.countEntry (inv : TallyOf relay signers done tally)
    (counted : countEntry relay signers tally e = some tally') :
    TallyOf relay signers (done ++ [e]) tally' := by
  unfold ConfidentialCompute.countEntry at counted
  split at counted
  · cases counted
  · rename_i refused
    cases counted
    exact inv.skip refused _ _
  · rename_i verified
    cases counted
    exact inv.add verified

/-- What every turn of the loop keeps, the loop keeps. -/
theorem countEntries_invariant {P : List RelayEntry → Tally → Prop}
    (turn : ∀ done tally e tally', P done tally →
      countEntry relay signers tally e = some tally' → P (done ++ [e]) tally')
    (start : P done tally) (counted : countEntries relay signers entries tally = some tally') :
    P (done ++ entries) tally' := by
  induction entries generalizing done tally with
  | nil =>
      cases counted
      simpa using start
  | cons e rest ih =>
      unfold countEntries at counted
      split at counted
      · cases counted
      · rename_i next one
        have := ih (turn done tally e next start one) counted
        simpa using this

theorem TallyOf.countEntries (inv : TallyOf relay signers done tally)
    (counted : countEntries relay signers entries tally = some tally') :
    TallyOf relay signers (done ++ entries) tally' :=
  countEntries_invariant (fun _ _ _ _ inv one => inv.countEntry one) inv counted

/-- The loop panics when, and only when, checking some entry does. -/
theorem countEntries_eq_none_iff :
    countEntries relay signers entries tally = none ↔
      ∃ e ∈ entries, e.verify relay signers = .panicked := by
  induction entries generalizing tally with
  | nil => simp [countEntries]
  | cons e rest ih =>
      unfold countEntries countEntry
      cases verdict : e.verify relay signers with
      | panicked => simp [verdict]
      | err error => simp [verdict, ih]
      | ok signer => simp [verdict, ih]

end

/-! ## Backing -/

/-- The entry carries a valid signature of the key. -/
def RelayEntry.SignedBy (relay : Relay) (e : RelayEntry) (key : Slice UInt8) : Prop :=
  ValidSignature relay.toCrypto (relay.relayResponseSignaturePayload e.sigHash)
    e.signature.signature key

/-- Checking the entry comes to a malformed key. -/
def RelayEntry.Fatal (relay : Relay) (signers : Slice (Slice UInt8)) (e : RelayEntry) : Prop :=
  ReachesMalformedKey relay.toCrypto (relay.relayResponseSignaturePayload e.sigHash)
    e.signature.signature signers

/-- `F + 1` distinct signers validly signed entries of the group. -/
def RelayBacked (relay : Relay) (entries : List RelayEntry) (cfg : EnclaveConfig) (h : Bytes32) :
    Prop :=
  ∃ backers : Finset (Slice UInt8), cfg.f.toNat + 1 ≤ backers.card ∧
    ∀ key ∈ backers, key ∈ cfg.signers ∧
      ∃ e ∈ entries, e.groupHash = h ∧ e.SignedBy relay key

/-- What is assumed of a bundle: a signature verifies under at most one key, and all but
`F` of the signers sign results of the group `g` only. -/
structure HonestSigners (relay : Relay) (entries : List RelayEntry) (cfg : EnclaveConfig)
    (faulty : Finset (Slice UInt8)) (g : Bytes32) : Prop where
  oneKey : ∀ e ∈ entries, ∀ key ∈ cfg.signers, ∀ other ∈ cfg.signers,
    e.SignedBy relay key → e.SignedBy relay other → other = key
  few : faulty.card ≤ cfg.f.toNat
  agree : ∀ e ∈ entries, ∀ key ∈ cfg.signers, key ∉ faulty → e.SignedBy relay key →
    e.groupHash = g

section

variable {relay : Relay} {entries : List RelayEntry} {cfg : EnclaveConfig}
  {faulty : Finset (Slice UInt8)} {g h : Bytes32} {tally : Tally}
  {order : MapOrder Bytes32 (Finset Bytes32)} {required : Nat}

theorem RelayEntry.signedBy_of_verify {e : RelayEntry} {signers : Slice (Slice UInt8)}
    {signer : Slice UInt8} (verified : e.verify relay signers = .ok signer) :
    signer ∈ signers ∧ e.SignedBy relay signer :=
  verifySignature_valid verified

/-- Only the group the non-faulty signers agree on can be backed. -/
theorem HonestSigners.eq_of_backed (honest : HonestSigners relay entries cfg faulty g)
    (backed : RelayBacked relay entries cfg h) : h = g := by
  obtain ⟨backers, many, sound⟩ := backed
  obtain ⟨key, backs, notFaulty⟩ := Quorum.exists_honest honest.few many
  obtain ⟨member, e, among, rfl, signed⟩ := sound key backs
  exact honest.agree e among key member notFaulty signed

/-- A group whose count reaches the threshold is backed. -/
theorem TallyOf.backed (inv : TallyOf relay cfg.signers entries tally)
    (reached : cfg.f.toNat + 1 ≤ tally.count h) : RelayBacked relay entries cfg h := by
  have covered : ∀ d ∈ (tally.signersByHash.lookup h).getD ∅,
      ∃ key : Slice UInt8, relay.sha256 key.data = d ∧ (key ∈ cfg.signers ∧
        ∃ e ∈ entries, e.groupHash = h ∧ e.SignedBy relay key) := by
    intro d member
    obtain ⟨e, among, group, signer, verified, digest⟩ := (inv.counted h d).mp member
    obtain ⟨allowed, signed⟩ := RelayEntry.signedBy_of_verify verified
    exact ⟨signer, digest, allowed, e, among, group, signed⟩
  obtain ⟨backers, atLeast, sound⟩ := Quorum.exists_sources covered
  exact ⟨backers, reached.trans atLeast, sound⟩

/-- A backed group is counted to the threshold, if no check panics. -/
theorem TallyOf.reached (inv : TallyOf relay cfg.signers entries tally)
    (honest : HonestSigners relay entries cfg faulty g)
    (fingerprints : relay.CollisionFree {text | ∃ key ∈ cfg.signers, key.data = text})
    (survives : ∀ e ∈ entries, ¬ e.Fatal relay cfg.signers)
    (backed : RelayBacked relay entries cfg h) : cfg.f.toNat + 1 ≤ tally.count h := by
  obtain ⟨backers, many, sound⟩ := backed
  have apart : Set.InjOn (fun key : Slice UInt8 => relay.sha256 key.data) backers := by
    intro key backs key' backs' same
    obtain ⟨member, _⟩ := sound key backs
    obtain ⟨member', _⟩ := sound key' backs'
    exact Slice.data_injective
      (fingerprints key.data ⟨key, member, rfl⟩ key'.data ⟨key', member', rfl⟩ same)
  have counted : ∀ key ∈ backers,
      relay.sha256 key.data ∈ (tally.signersByHash.lookup h).getD ∅ := by
    intro key backs
    obtain ⟨member, e, among, group, signed⟩ := sound key backs
    have verified : e.verify relay cfg.signers = .ok key :=
      verifySignature_of_valid member signed
        (fun other allowed valid => honest.oneKey e among key member other allowed signed valid)
        (survives e among)
    exact (inv.counted h _).mpr ⟨e, among, group, key, verified, rfl⟩
  exact many.trans (Quorum.card_le_of_digests apart counted)

theorem Tally.mem_winners {q : Qualified} :
    q ∈ tally.winners order required ↔
      q.hash ∈ order.keys tally.signersByHash ∧ required ≤ tally.count q.hash ∧
        q.count = tally.count q.hash := by
  obtain ⟨hash, count⟩ := q
  unfold Tally.winners
  simp only [List.mem_insertionSort, List.mem_map, List.mem_filter, decide_eq_true_eq,
    Qualified.mk.injEq]
  constructor
  · rintro ⟨_, ⟨key, enough⟩, rfl, rfl⟩
    exact ⟨key, enough, rfl⟩
  · rintro ⟨key, enough, rfl⟩
    exact ⟨hash, ⟨key, enough⟩, rfl, rfl⟩

/-- A group with a count is one of the groups of the `range` loop. -/
theorem Tally.winners_ne_nil (enough : 0 < required) (reached : required ≤ tally.count h) :
    tally.winners order required ≠ [] := by
  have present : ∃ set, tally.signersByHash.lookup h = some set := by
    cases found : tally.signersByHash.lookup h with
    | none =>
        simp [Tally.count, found] at reached
        omega
    | some set => exact ⟨set, rfl⟩
  obtain ⟨set, found⟩ := present
  have key : h ∈ order.keys tally.signersByHash :=
    (order.mem_iff _ _).mpr (Finmap.mem_iff.mpr ⟨set, found⟩)
  exact List.ne_nil_of_mem (Tally.mem_winners.mpr
    (show (⟨h, tally.count h⟩ : Qualified).hash ∈ _ ∧ _ from ⟨key, reached, rfl⟩))

/-- The entry is one of the group, with a signature that verifies. -/
def RelayEntry.counts (relay : Relay) (signers : Slice (Slice UInt8)) (h : Bytes32)
    (e : RelayEntry) : Bool :=
  e.groupHash = h && match e.verify relay signers with
    | .ok _ => true
    | _ => false

theorem RelayEntry.counts_iff {signers : Slice (Slice UInt8)} {e : RelayEntry} :
    e.counts relay signers h = true ↔
      e.groupHash = h ∧ ∃ signer, e.verify relay signers = .ok signer := by
  unfold RelayEntry.counts
  cases e.verify relay signers <;> simp

/-- The indices kept are those of the first entries that count. -/
def Tally.FirstOf (relay : Relay) (signers : Slice (Slice UInt8)) (done : List RelayEntry)
    (tally : Tally) : Prop :=
  ∀ h, tally.firstIdxByHash.lookup h = (done.find? (·.counts relay signers h)).map (·.idx)

section

variable {signers : Slice (Slice UInt8)} {done : List RelayEntry} {e : RelayEntry}
  {tally' : Tally}

/-- An entry that does not count for a group leaves its index as it is. -/
theorem find?_snoc_of_not_counts (other : e.counts relay signers h ≠ true) :
    (done ++ [e]).find? (·.counts relay signers h) = done.find? (·.counts relay signers h) := by
  rw [List.find?_append, List.find?_cons_of_neg other, List.find?_nil, Option.or_none]

/-- The first entry of a group is the one for which no signers are counted yet. -/
theorem Tally.FirstOf.add (first : tally.FirstOf relay signers done)
    (inv : TallyOf relay signers done tally) {signer : Slice UInt8}
    (verified : e.verify relay signers = .ok signer) :
    (tally.add relay e signer).FirstOf relay signers (done ++ [e]) := by
  intro h
  have counts : e.counts relay signers e.groupHash = true :=
    RelayEntry.counts_iff.mpr ⟨rfl, signer, verified⟩
  by_cases group : e.groupHash = h
  · subst group
    unfold Tally.add
    dsimp only
    split
    · rename_i missing
      have none_counts : done.find? (·.counts relay signers e.groupHash) = none := by
        refine List.find?_eq_none.mpr fun e' among counted => ?_
        obtain ⟨group', signer', verified'⟩ := RelayEntry.counts_iff.mp counted
        have member := (inv.counted e.groupHash _).mpr ⟨e', among, group', signer', verified', rfl⟩
        simp [missing] at member
      rw [List.find?_append, none_counts, List.find?_cons_of_pos counts]
      simp
    · rename_i set present
      obtain ⟨e', _, kept, _⟩ := inv.first _ set present
      have found := first e.groupHash
      rw [kept] at found
      obtain ⟨e'', foremost, _⟩ := Option.map_eq_some_iff.mp found.symm
      rw [List.find?_append, foremost, Option.some_or, ← foremost]
      exact first e.groupHash
  · have other : e.counts relay signers h ≠ true := fun counted =>
      group (RelayEntry.counts_iff.mp counted).1
    rw [find?_snoc_of_not_counts other, ← first h]
    unfold Tally.add
    dsimp only
    split
    · exact Finmap.lookup_insert_of_ne _ (Ne.symm group)
    · rfl

theorem Tally.FirstOf.countEntry (first : tally.FirstOf relay signers done)
    (inv : TallyOf relay signers done tally)
    (counted : countEntry relay signers tally e = some tally') :
    tally'.FirstOf relay signers (done ++ [e]) := by
  unfold ConfidentialCompute.countEntry at counted
  split at counted
  · cases counted
  · rename_i refused
    cases counted
    intro h
    have other : e.counts relay signers h ≠ true := by
      rw [Ne, RelayEntry.counts_iff, refused]
      rintro ⟨_, signer, verified⟩
      cases verified
    rw [find?_snoc_of_not_counts other]
    exact first h
  · rename_i verified
    cases counted
    exact first.add inv verified

theorem Tally.FirstOf.countEntries (first : tally.FirstOf relay signers done)
    (inv : TallyOf relay signers done tally)
    (counted : countEntries relay signers entries tally = some tally') :
    tally'.FirstOf relay signers (done ++ entries) := by
  have both := countEntries_invariant
    (P := fun done tally => TallyOf relay signers done tally ∧ tally.FirstOf relay signers done)
    (fun _ _ _ _ both one => ⟨both.1.countEntry one, both.2.countEntry both.1 one⟩)
    ⟨inv, first⟩ counted
  exact both.2

end

/-- What a call that returns an index has gone through. -/
theorem selectQuorumResult_counted {verifier : Bool} {rawBundleSize idx : Nat}
    {skipped : List String}
    (selected : selectQuorumResult relay verifier order rawBundleSize skipped entries cfg =
      .ok idx) :
    verifier = true ∧ ∃ tally winner, countEntries relay cfg.signers entries .empty = some tally ∧
      winner ∈ tally.winners order (cfg.f.toNat + 1) ∧
      (tally.firstIdxByHash.lookup winner.hash).getD 0 = idx := by
  unfold selectQuorumResult at selected
  split at selected
  · cases selected
  rename_i configured
  split at selected
  · cases selected
  dsimp only at selected
  split at selected
  · cases selected
  rename_i tally counted
  split at selected
  · cases selected
  rename_i winner rest best
  refine ⟨by simpa using configured, tally, winner, counted, ?_, Outcome.ok.inj selected⟩
  rw [best]
  exact List.mem_cons_self

/-- The index returned is that of the first entry that counts for a backed group. -/
theorem selectQuorumResult_first {verifier : Bool} {rawBundleSize idx : Nat}
    {skipped : List String}
    (selected : selectQuorumResult relay verifier order rawBundleSize skipped entries cfg =
      .ok idx) :
    ∃ h e, RelayBacked relay entries cfg h ∧
      entries.find? (·.counts relay cfg.signers h) = some e ∧ e.idx = idx := by
  obtain ⟨_, tally, winner, counted, best, kept⟩ := selectQuorumResult_counted selected
  have inv : TallyOf relay cfg.signers entries tally := TallyOf.empty.countEntries counted
  have first : tally.FirstOf relay cfg.signers entries := by
    have none_counted : Tally.empty.FirstOf relay cfg.signers [] := fun h => rfl
    exact none_counted.countEntries TallyOf.empty counted
  obtain ⟨key, reached, _⟩ := Tally.mem_winners.mp best
  obtain ⟨set, found⟩ := Finmap.mem_iff.mp ((order.mem_iff _ _).mp key)
  obtain ⟨_, _, present, _⟩ := inv.first _ set found
  rw [first winner.hash] at kept present
  obtain ⟨e, foremost, _⟩ := Option.map_eq_some_iff.mp present
  refine ⟨winner.hash, e, inv.backed reached, foremost, ?_⟩
  rw [foremost] at kept
  exact kept

/-- What a returned index says, with no assumption on the signers. -/
theorem selectQuorumResult_ok {verifier : Bool} {rawBundleSize idx : Nat}
    {skipped : List String}
    (selected : selectQuorumResult relay verifier order rawBundleSize skipped entries cfg =
      .ok idx) :
    ∃ e ∈ entries, e.idx = idx ∧ RelayBacked relay entries cfg e.groupHash ∧
      ∃ signer, e.verify relay cfg.signers = .ok signer := by
  obtain ⟨h, e, backed, foremost, index⟩ := selectQuorumResult_first selected
  obtain ⟨rfl, verified⟩ := RelayEntry.counts_iff.mp (List.find?_some foremost)
  exact ⟨e, List.mem_of_find?_eq_some foremost, index, backed, verified⟩

end

/-! ## Safety and liveness -/

/-- Only an entry of the group `g` with a signature that verifies is selected, and only when
`g` is backed and nothing else is. -/
def QuorumSafe (relay : Relay) (entries : List RelayEntry) (cfg : EnclaveConfig) (g : Bytes32)
    (result : Outcome QuorumError Nat) : Prop :=
  ∀ idx, result = .ok idx →
    (∃ e ∈ entries, e.idx = idx ∧ e.groupHash = g ∧
      ∃ signer, e.verify relay cfg.signers = .ok signer) ∧
    RelayBacked relay entries cfg g ∧ ∀ h, RelayBacked relay entries cfg h → h = g

/-- An index is returned if `g` is backed. -/
def QuorumLive (relay : Relay) (entries : List RelayEntry) (cfg : EnclaveConfig) (g : Bytes32)
    (result : Outcome QuorumError Nat) : Prop :=
  RelayBacked relay entries cfg g → ∃ idx, result = .ok idx

section

variable {relay : Relay} {entries : List RelayEntry} {cfg : EnclaveConfig}
  {faulty : Finset (Slice UInt8)} {g : Bytes32} {verifier : Bool}
  {order : MapOrder Bytes32 (Finset Bytes32)} {rawBundleSize : Nat} {skipped : List String}

theorem selectQuorumResult_safe (honest : HonestSigners relay entries cfg faulty g) :
    QuorumSafe relay entries cfg g
      (selectQuorumResult relay verifier order rawBundleSize skipped entries cfg) := by
  intro idx selected
  obtain ⟨e, among, index, backed, verified⟩ := selectQuorumResult_ok selected
  have group : e.groupHash = g := honest.eq_of_backed backed
  refine ⟨⟨e, among, index, group, verified⟩, group ▸ backed, fun h backed' => ?_⟩
  exact honest.eq_of_backed backed'

/-- An index is returned if the loop counts enough signers for a group. -/
theorem selectQuorumResult_of_reached {tally : Tally} {h : Bytes32} (configured : verifier = true)
    (someSigner : cfg.signers.length ≠ 0)
    (counted : countEntries relay cfg.signers entries .empty = some tally)
    (reached : cfg.f.toNat + 1 ≤ tally.count h) :
    ∃ idx, selectQuorumResult relay verifier order rawBundleSize skipped entries cfg =
      .ok idx := by
  have some_winner : tally.winners order (cfg.f.toNat + 1) ≠ [] :=
    Tally.winners_ne_nil (Nat.succ_pos _) reached
  unfold selectQuorumResult
  rw [configured, if_neg (by simp), if_neg someSigner]
  dsimp only
  rw [counted]
  dsimp only
  split
  · rename_i none_won
    exact (some_winner none_won).elim
  · exact ⟨_, rfl⟩

theorem selectQuorumResult_live (honest : HonestSigners relay entries cfg faulty g)
    (fingerprints : relay.CollisionFree {text | ∃ key ∈ cfg.signers, key.data = text})
    (configured : verifier = true)
    (survives : ∀ e ∈ entries, ¬ e.Fatal relay cfg.signers)
    (backed : RelayBacked relay entries cfg g) :
    ∃ idx, selectQuorumResult relay verifier order rawBundleSize skipped entries cfg =
      .ok idx := by
  have someSigner : cfg.signers.length ≠ 0 := by
    obtain ⟨backers, many, sound⟩ := backed
    obtain ⟨key, backs⟩ := Finset.card_pos.mp (show 0 < backers.card by omega)
    exact (List.length_pos_of_mem (sound key backs).1).ne'
  cases counted : countEntries relay cfg.signers entries .empty with
  | none =>
      obtain ⟨e, among, panics⟩ := countEntries_eq_none_iff.mp counted
      exact (survives e among (verifySignature_panicked_iff.mp panics)).elim
  | some tally =>
      have inv : TallyOf relay cfg.signers entries tally := TallyOf.empty.countEntries counted
      exact selectQuorumResult_of_reached configured someSigner counted
        (inv.reached honest fingerprints survives backed)

/-- A call that returns an index had a verifier, and none of its checks panicked. -/
theorem selectQuorumResult_ok_survives {idx : Nat}
    (selected : selectQuorumResult relay verifier order rawBundleSize skipped entries cfg =
      .ok idx) :
    verifier = true ∧ ∀ e ∈ entries, ¬ e.Fatal relay cfg.signers := by
  obtain ⟨configured, tally, _, counted, _⟩ := selectQuorumResult_counted selected
  refine ⟨configured, fun e among fatal => ?_⟩
  rw [countEntries_eq_none_iff.mpr ⟨e, among, verifySignature_panicked_iff.mpr fatal⟩] at counted
  cases counted

end

/-- **Byzantine quorum selection.** Whatever a bundle holds and in whatever order the groups
are ranged over, selection is safe; and it is live exactly when, should the group of the
non-faulty signers be backed, a verifier is configured and no check comes to a malformed
key of the signer list. -/
theorem relay_quorum (relay : Relay) (verifier : Bool)
    (order : MapOrder Bytes32 (Finset Bytes32)) (rawBundleSize : Nat) (skipped : List String)
    (entries : List RelayEntry) (cfg : EnclaveConfig) (faulty : Finset (Slice UInt8))
    (g : Bytes32) (honest : HonestSigners relay entries cfg faulty g)
    (fingerprints : relay.CollisionFree {text | ∃ key ∈ cfg.signers, key.data = text}) :
    (QuorumSafe relay entries cfg g
        (selectQuorumResult relay verifier order rawBundleSize skipped entries cfg) ∧
      QuorumLive relay entries cfg g
        (selectQuorumResult relay verifier order rawBundleSize skipped entries cfg)) ↔
      (RelayBacked relay entries cfg g →
        verifier = true ∧ ∀ e ∈ entries, ¬ e.Fatal relay cfg.signers) := by
  constructor
  · rintro ⟨_, live⟩ backed
    obtain ⟨idx, selected⟩ := live backed
    exact selectQuorumResult_ok_survives selected
  · intro condition
    refine ⟨selectQuorumResult_safe honest, fun backed => ?_⟩
    obtain ⟨configured, survives⟩ := condition backed
    exact selectQuorumResult_live honest fingerprints configured survives backed

namespace Sample

def relay : Relay where
  toCrypto := crypto
  relayResponseSignaturePayload h := h.data

def relayEntry (idx : Nat) (n group : UInt8) : RelayEntry where
  sigHash := key group
  groupHash := key group
  signature := ⟨signer n, sign n (key group).data⟩
  desc := ""
  idx := idx

theorem signedBy_relayEntry {idx : Nat} {n group : UInt8} {signer' : Slice UInt8} :
    (relayEntry idx n group).SignedBy relay signer' ↔ signer' = signer n := by
  constructor
  · rintro ⟨_, _, verified⟩
    exact Slice.data_injective (signer_of_verify verified)
  · rintro rfl
    refine ⟨(key n).length_eq, ?_, decide_eq_true rfl⟩
    show ((key n).data ++ (digest (key group).data).data).length = _
    rw [List.length_append, (key n).length_eq, (digest (key group).data).length_eq]
    rfl

/-- Signer 4 answers 6, and two others 5. -/
def relayEntries : List RelayEntry := [relayEntry 0 4 6, relayEntry 1 1 5, relayEntry 2 2 5]

/-- A configuration whose first signer is no Ed25519 key. -/
def malformedSigners : EnclaveConfig := ⟨⟨[⟨[1], by decide⟩, signer 1], by decide⟩, ∅, 1, 0⟩

end Sample

section

open Sample

/-- One signer of two is no key. The entry of the other one, of a group backed by the
`F + 1 = 1` signer it takes, is never looked at: the first check panics. -/
theorem relay_quorum_panics :
    HonestSigners relay [relayEntry 0 1 5] malformedSigners ∅ (key 5) ∧
      RelayBacked relay [relayEntry 0 1 5] malformedSigners (key 5) ∧
      ∀ order rawBundleSize skipped,
        selectQuorumResult relay true order rawBundleSize skipped
          [relayEntry 0 1 5] malformedSigners = .panicked := by
  refine ⟨⟨?_, le_rfl, ?_⟩, ⟨{signer 1}, le_rfl, ?_⟩, ?_⟩
  · intro e among key _ other _ signed signed'
    cases List.mem_singleton.mp among
    rw [signedBy_relayEntry.mp signed, signedBy_relayEntry.mp signed']
  · intro e among key _ _ _
    cases List.mem_singleton.mp among
    rfl
  · intro key backs
    cases Finset.mem_singleton.mp backs
    exact ⟨Slice.mem_def.mpr (by decide), _, List.mem_singleton.mpr rfl, rfl,
      signedBy_relayEntry.mpr rfl⟩
  · intro order rawBundleSize skipped
    have panics : countEntries relay malformedSigners.signers [relayEntry 0 1 5] .empty = none := by
      refine countEntries_eq_none_iff.mpr ⟨_, List.mem_singleton.mpr rfl,
        verifySignature_panicked_iff.mpr ⟨?_, [], _, _, rfl, by decide, by simp⟩⟩
      exact (signedBy_relayEntry.mpr rfl).2.1
    unfold selectQuorumResult
    rw [panics]
    rfl

/-- The answer of the two is selected. -/
theorem relay_quorum_one_faulty :
    RelayBacked relay relayEntries (config 1) (key 5) ∧
      ∀ order, ∃ idx,
        selectQuorumResult relay true order 3 [] relayEntries (config 1) = .ok idx := by
  have backed : RelayBacked relay relayEntries (config 1) (key 5) := by
    refine ⟨{signer 1, signer 2}, by decide, fun key backs => ?_⟩
    rcases Finset.mem_insert.mp backs with rfl | backs
    · exact ⟨Slice.mem_def.mpr (by decide), relayEntry 1 1 5, by simp [relayEntries], rfl,
        signedBy_relayEntry.mpr rfl⟩
    · cases Finset.mem_singleton.mp backs
      exact ⟨Slice.mem_def.mpr (by decide), relayEntry 2 2 5, by simp [relayEntries], rfl,
        signedBy_relayEntry.mpr rfl⟩
  have honest : HonestSigners relay relayEntries (config 1) {signer 4} (key 5) := by
    refine ⟨?_, le_rfl, ?_⟩
    · intro e among key _ other _ signed signed'
      simp only [relayEntries, List.mem_cons, List.not_mem_nil, or_false] at among
      rcases among with rfl | rfl | rfl <;>
        rw [signedBy_relayEntry.mp signed, signedBy_relayEntry.mp signed']
    · intro e among key _ notFaulty signed
      simp only [relayEntries, List.mem_cons, List.not_mem_nil, or_false] at among
      rcases among with rfl | rfl | rfl
      · rw [signedBy_relayEntry.mp signed] at notFaulty
        exact (notFaulty (Finset.mem_singleton_self _)).elim
      · rfl
      · rfl
  refine ⟨backed, fun order => ?_⟩
  refine ((relay_quorum relay true order 3 [] _ _ _ _ honest ?_).mpr
    fun _ => ⟨rfl, ?_⟩).2 backed
  · have apart : ∀ key ∈ (config 1).signers.data, ∀ key' ∈ (config 1).signers.data,
        digest key.data = digest key'.data → key.data = key'.data := by
      decide +kernel
    rintro _ ⟨key, member, rfl⟩ _ ⟨key', member', rfl⟩ same
    exact apart key member key' member' same
  · rintro e _ ⟨_, tried, key, rest, split, malformed, _⟩
    have wellFormed : ∀ key ∈ (config 1).signers.data, key.length = ed25519PublicKeySize := by
      decide
    exact malformed (wellFormed key (by rw [split]; simp))

end

end ConfidentialCompute
