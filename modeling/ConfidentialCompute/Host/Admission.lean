import ConfidentialCompute.Host.Dispatch

/-!
# What the host dispatches and what the enclave admits

The host and the enclave count a quorum each in its own way: the host counts the requests
of a batch by distinct signers against a `uint32` threshold, the enclave counts the digests
of the signers' keys against `int(F) + 1`. Under one configuration the requests of a
dispatched batch have one hash and verify under as many distinct signers as the threshold
says (`Gathering`), so the enclave admits the batch exactly when the threshold has not
wrapped below `F + 1`.
-/

namespace ConfidentialCompute

open Go Runs Heap

/-! ## Verified requests at the enclave -/

section

variable {crypto : Crypto} {config : EnclaveConfig} {hash : Bytes32}
  {requests : List SignedComputeRequest} {signers : List (Slice UInt8)}

/-- The requests have one hash, and `VerifySignature` finds `signers` for them, in order. -/
def VerifiedBy (crypto : Crypto) (config : EnclaveConfig) (hash : Bytes32) :
    List SignedComputeRequest → List (Slice UInt8) → Prop :=
  List.Forall₂ fun req signer => req.hash crypto = hash ∧
    verifySignature crypto (requestPayload crypto hash) req.signature config.signers = .ok signer

theorem VerifiedBy.append_one {req : SignedComputeRequest} {signer : Slice UInt8}
    (verified : VerifiedBy crypto config hash requests signers) (sameHash : req.hash crypto = hash)
    (signed : verifySignature crypto (requestPayload crypto hash) req.signature config.signers =
      .ok signer) :
    VerifiedBy crypto config hash (requests ++ [req]) (signers ++ [signer]) :=
  List.rel_append verified (.cons ⟨sameHash, signed⟩ .nil)

theorem VerifiedBy.allowed (verified : VerifiedBy crypto config hash requests signers) :
    ∀ signer ∈ signers, signer ∈ config.signers := by
  induction verified with
  | nil => simp
  | cons head _ ih =>
      intro signer among
      rcases List.mem_cons.mp among with rfl | among
      · exact (verifySignature_valid head.2).1
      · exact ih signer among

/-- The loop accepts verified requests and collects the digests of their signers' keys. -/
theorem checkRequests_verified (verified : VerifiedBy crypto config hash requests signers)
    (i : Nat) (start : Finset Bytes32) :
    checkRequests crypto config hash i requests start =
      .ok (start ∪ (signers.map fun signer => crypto.sha256 signer.data).toFinset) := by
  induction verified generalizing i start with
  | nil => simp [checkRequests]
  | @cons req signer requests signers head _ ih =>
      obtain ⟨sameHash, signed⟩ := head
      unfold checkRequests
      simp only [sameHash, signed, ne_eq, not_true_eq_false, if_false, ih, List.map_cons,
        List.toFinset_cons, Finset.insert_union, Finset.union_insert]

/-- The quorum check counts the requests, if the signers are distinct and so are the digests
of configured keys. -/
theorem admitBatch_verified {first : SignedComputeRequest} {rest : List SignedComputeRequest}
    (verified : VerifiedBy crypto config hash (first :: rest) signers) (distinct : signers.Nodup)
    (fingerprints : crypto.CollisionFree {text | ∃ key ∈ config.signers, key.data = text}) :
    admitBatch crypto config first rest = .ok hash ↔
      config.f.toNat + 1 ≤ (first :: rest).length := by
  have sameHash : first.hash crypto = hash := by
    cases verified with
    | cons head _ => exact head.1
  have digests : (signers.map fun signer => crypto.sha256 signer.data).Nodup := by
    refine distinct.map_on fun key among key' among' same => Slice.data_injective ?_
    exact fingerprints key.data ⟨key, verified.allowed key among, rfl⟩
      key'.data ⟨key', verified.allowed key' among', rfl⟩ same
  have counted : (signers.map fun signer => crypto.sha256 signer.data).toFinset.card =
      (first :: rest).length := by
    rw [List.toFinset_card_of_nodup digests, List.length_map, verified.length_eq]
  unfold admitBatch
  rw [sameHash, checkRequests_verified verified, Finset.empty_union]
  dsimp only
  rw [counted]
  split
  · rename_i few
    simp only [reduceCtorEq, false_iff]
    omega
  · rename_i enough
    simp only [true_iff]
    omega

/-- A threshold that a batch can reach is at least `F + 1`, unless `2F + 1` has wrapped. -/
theorem quorum_le_threshold_iff {flags : HostFlags} {f : UInt32}
    (reachable : 0 < quorumThreshold flags f) :
    f.toNat + 1 ≤ quorumThreshold flags f ↔
      (flags.requireBFTQuorum = true → f.toNat < 2 ^ 31) := by
  have bound : f.toNat < 2 ^ 32 := f.toNat_lt
  unfold quorumThreshold at reachable ⊢
  split at reachable
  · rename_i bft
    have wraps : (2 * f + 1).toNat = (2 * f.toNat + 1) % 2 ^ 32 := by simp
    rw [if_pos bft, wraps]
    simp only [bft, forall_const]
    omega
  · rename_i plain
    have wraps : (f + 1).toNat = (f.toNat + 1) % 2 ^ 32 := by simp
    rw [wraps] at reachable
    rw [if_neg plain, wraps]
    simp only [plain, Bool.false_eq_true, false_implies, iff_true]
    omega

end

/-! ## Requests gathered under one configuration -/

namespace HostServer

variable {crypto : Crypto} {flags : HostFlags} {config : EnclaveConfig} {s s' : HostServer}
  {l : HostLabel}

/-- Whenever a request arrives, the host holds this configuration. -/
def ServesUnder (config : EnclaveConfig) (s : HostServer) (l : HostLabel) : Prop :=
  l.action.isArrival = true → s.config = config

instance (config : EnclaveConfig) (s : HostServer) (l : HostLabel) :
    Decidable (ServesUnder config s l) :=
  inferInstanceAs (Decidable (_ → _))

/-- Requests with one hash and distinct signers under the configuration. -/
structure Gathering (crypto : Crypto) (config : EnclaveConfig) (hash : Bytes32)
    (requests : List SignedComputeRequest) (signers : List (Slice UInt8)) : Prop where
  verified : VerifiedBy crypto config hash requests signers
  distinct : signers.Nodup

/-- All goroutines have read this configuration; a batch is a gathering of the signers it
has seen, and what is dispatched is a gathering of as many signers as the threshold says. -/
structure GathersUnder (crypto : Crypto) (flags : HostFlags) (config : EnclaveConfig)
    (s : HostServer) : Prop where
  snapshots : ∀ snapshot ∈ s.snapshots, snapshot = config
  batches : ∀ (b : Nat) cell, s.batches[b]? = some cell →
    ∃ signers, Gathering crypto config cell.requestHash cell.requests signers ∧
      signers.toFinset = cell.signersSeen
  executions : ∀ (e : Nat) execution, s.executions[e]? = some execution →
    execution.requests ≠ [] ∧ execution.requests.length = quorumThreshold flags config.f ∧
      ∃ signers, Gathering crypto config execution.requestHash execution.requests signers

/-- A new signer's verified request extends a gathering. -/
theorem Gathering.append_one {hash : Bytes32} {requests : List SignedComputeRequest}
    {signers : List (Slice UInt8)} {req : SignedComputeRequest} {signer : Slice UInt8}
    (gathering : Gathering crypto config hash requests signers) (sameHash : req.hash crypto = hash)
    (signed : verifySignature crypto (requestPayload crypto hash) req.signature config.signers =
      .ok signer) (fresh : signer ∉ signers) :
    Gathering crypto config hash (requests ++ [req]) (signers ++ [signer]) := by
  refine ⟨gathering.verified.append_one sameHash signed, ?_⟩
  rw [← List.concat_eq_append]
  exact gathering.distinct.concat fresh

theorem GathersUnder.snapshots_kept (inv : GathersUnder crypto flags config s)
    (admitted : ServesUnder config s l) (taken : HostServer.step crypto flags s l = some s') :
    ∀ snapshot ∈ s'.snapshots, snapshot = config := by
  cases step_configMove taken with
  | kept kept =>
      rw [kept.snapshots]
      exact inv.snapshots
  | adopted _ snapshots =>
      rw [snapshots]
      exact inv.snapshots
  | read arrival _ snapshots =>
      rw [snapshots]
      intro snapshot among
      rcases List.mem_append.mp among with old | new
      · exact inv.snapshots snapshot old
      · rw [List.mem_singleton.mp new]
        exact admitted arrival

theorem GathersUnder.moves (inv : GathersUnder crypto flags config s) (moves : Moves s s')
    (snapshots : ∀ snapshot ∈ s'.snapshots, snapshot = config) :
    GathersUnder crypto flags config s' where
  snapshots := snapshots
  batches b cell' found := by
    obtain ⟨cell, old, same⟩ := moves.batches.old found
    rw [same.requestHash, same.requests, same.signersSeen]
    exact inv.batches b cell old
  executions e execution' found := by
    obtain ⟨execution, old, same⟩ := moves.executions.old found
    rw [same.requestHash, same.requests]
    exact inv.executions e execution old

/-- The gathering that a request joins: that of the pending batch, or an empty one. -/
theorem GathersUnder.target (inv : GathersUnder crypto flags config s) {now : Int} {h : Bytes32}
    {f : UInt32} {b : Nat} {cell : Batch} (target : s.Target now h f b cell) :
    ∃ signers, Gathering crypto config cell.requestHash cell.requests signers ∧
      signers.toFinset = cell.signersSeen := by
  rcases target with ⟨_, allocated⟩ | ⟨_, _, rfl⟩
  · exact inv.batches b cell allocated
  · exact ⟨[], ⟨.nil, List.nodup_nil⟩, rfl⟩

theorem GathersUnder.joined (inv : GathersUnder crypto flags config s) (pending : s.PendingSound)
    (snapshots : ∀ snapshot ∈ s'.snapshots, snapshot = config) {now : Int} {i : Nat}
    {call : HostCall} {signer : Slice UInt8} {b : Nat} {cell : Batch}
    (joined : Joined crypto flags s s' now i call signer b cell) :
    GathersUnder crypto flags config s' := by
  obtain ⟨hash, _⟩ := pending.target_hash joined.target
  obtain ⟨signers, gathering, seen⟩ := inv.target joined.target
  have read : call.config = config :=
    inv.snapshots _ (List.mem_map_of_mem (List.mem_of_getElem? joined.found))
  have signed : verifySignature crypto (requestPayload crypto cell.requestHash)
      call.req.signature config.signers = .ok signer := by
    rw [hash, ← read]
    exact joined.verified
  have extended : signer ∉ cell.signersSeen →
      Gathering crypto config cell.requestHash (cell.requests ++ [call.req])
        (signers ++ [signer]) := by
    intro fresh
    rw [← seen, List.mem_toFinset] at fresh
    exact gathering.append_one hash.symm signed fresh
  refine ⟨snapshots, ?_, ?_⟩
  · intro b' cell' found
    rcases joined.cases found with ⟨rfl, rfl⟩ | ⟨_, old⟩
    · unfold joinedCell joinBatch
      by_cases known : signer ∈ cell.signersSeen
      · rw [if_pos known]
        exact ⟨signers, gathering, seen⟩
      · rw [if_neg known]
        refine ⟨signers ++ [signer], extended known, ?_⟩
        show (signers ++ [signer]).toFinset = insert signer cell.signersSeen
        rw [List.toFinset_append, seen, Finset.union_comm]
        rfl
    · exact inv.batches b' cell' old
  · intro e execution found
    rw [joined.executions] at found
    split at found
    · rename_i dispatches
      rw [getElem?_alloc] at found
      split at found
      · cases found
        refine ⟨List.append_ne_nil_of_right_ne_nil _ (List.cons_ne_nil _ _), ?_,
          signers ++ [signer], ?_⟩
        · rw [List.length_append, List.length_singleton, dispatches.2, read]
        · rw [← hash]
          exact extended dispatches.1
      · exact inv.executions e execution found
    · exact inv.executions e execution found

theorem GathersUnder.step (inv : GathersUnder crypto flags config s) (sound : s.Sound)
    (admitted : ServesUnder config s l) (taken : HostServer.step crypto flags s l = some s') :
    GathersUnder crypto flags config s' := by
  have snapshots := inv.snapshots_kept admitted taken
  obtain ⟨_, _, effect⟩ := sound.effect taken
  rcases effect.joined_or_moves with ⟨i, call, signer, b, cell, _, joined⟩ | moves
  · exact inv.joined sound.pending snapshots joined
  · exact inv.moves moves snapshots

theorem GathersUnder.of_run {start : Int} {ls : List HostLabel}
    (run : Run (HostServer.step crypto flags) (ServesUnder config) (newHostServer start) ls s) :
    GathersUnder crypto flags config s := by
  induction run with
  | nil => refine ⟨?_, ?_, ?_⟩ <;> simp [HostServer.snapshots, newHostServer]
  | snoc before admitted taken ih => exact ih.step (Sound.of_run before) admitted taken

end HostServer

open HostServer

/-- **Dispatched batches are admitted.** Host and enclave hold one configuration, whatever
its signers and its `F`. Each batch that a run of the host hands to `processBatch` passes
the enclave's checks of hashes, signatures and quorum exactly when the host does not ask for
the BFT quorum or `2F + 1` fits a `uint32`. -/
theorem dispatched_admitted (crypto : Crypto) (flags : HostFlags) (config : EnclaveConfig)
    (fingerprints : crypto.CollisionFree {text | ∃ key ∈ config.signers, key.data = text})
    (start : Int) (ls : List HostLabel) (s : HostServer)
    (run : Run (HostServer.step crypto flags) (ServesUnder config) (newHostServer start) ls s)
    (execution : Execution) (dispatched : execution ∈ s.executions) :
    (∃ first rest, execution.requests = first :: rest ∧
        admitBatch crypto config first rest = .ok execution.requestHash) ↔
      (flags.requireBFTQuorum = true → config.f.toNat < 2 ^ 31) := by
  obtain ⟨e, found⟩ := List.mem_iff_getElem?.mp dispatched
  obtain ⟨nonempty, full, signers, gathering⟩ :=
    (GathersUnder.of_run run).executions e execution found
  obtain ⟨first, rest, eq⟩ := List.exists_cons_of_ne_nil nonempty
  have verified : VerifiedBy crypto config execution.requestHash (first :: rest) signers := by
    rw [← eq]
    exact gathering.verified
  have counted : quorumThreshold flags config.f = (first :: rest).length := by
    rw [← full, eq]
  have reachable : 0 < quorumThreshold flags config.f := by
    rw [counted]
    exact Nat.succ_pos _
  calc (∃ first rest, execution.requests = first :: rest ∧
        admitBatch crypto config first rest = .ok execution.requestHash)
    _ ↔ admitBatch crypto config first rest = .ok execution.requestHash := by
        constructor
        · intro ⟨first', rest', eq', admitted⟩
          cases eq.symm.trans eq'
          exact admitted
        · exact fun admitted => ⟨first, rest, eq, admitted⟩
    _ ↔ config.f.toNat + 1 ≤ quorumThreshold flags config.f := by
        rw [admitBatch_verified verified gathering.distinct fingerprints, counted]
    _ ↔ (flags.requireBFTQuorum = true → config.f.toNat < 2 ^ 31) :=
        quorum_le_threshold_iff reachable

namespace Sample

/-- Configured keys have digests of their own. -/
theorem fingerprints (f : UInt32) :
    crypto.CollisionFree {text | ∃ key ∈ (config f).signers, key.data = text} := by
  refine .of_list ((config 0).signers.data.map Slice.data)
    (fun text ⟨key, member, isText⟩ => isText ▸ List.mem_map_of_mem member) (by decide +kernel)

end Sample

open Sample

/-- With `F = 2^31` the BFT threshold wraps to one: the first request is dispatched alone,
and the enclave refuses it. -/
theorem dispatched_refused :
    ∃ s, Run (HostServer.step crypto bftFlags) (ServesUnder (config 2147483648))
        (newHostServer 0) (adopt 0 2147483648 :: joining 0 1 0) s ∧
      s.executions.map Execution.requests = [[signedRequest 1]] ∧
      admitBatch crypto (config 2147483648) (signedRequest 1) [] =
        .err (.error statusBadRequest
          "not enough requests by unique signers to reach quorum, got 1, need 2147483649") :=
  Run.exists_of_exec (by decide +kernel)

/-- Two of four signers under `F = 1` make a batch that the enclave admits. -/
theorem dispatched_admitted_two_signers :
    ∃ s execution, Run (HostServer.step crypto flags) (ServesUnder (config 1)) (newHostServer 0)
        (adopt 0 1 :: joining 0 1 0 ++ joining 0 2 1) s ∧ execution ∈ s.executions ∧
      ∃ first rest, execution.requests = first :: rest ∧
        admitBatch crypto (config 1) first rest = .ok execution.requestHash := by
  have found : ∃ s, Run (HostServer.step crypto flags) (ServesUnder (config 1))
      (newHostServer 0) (adopt 0 1 :: joining 0 1 0 ++ joining 0 2 1) s ∧
      s.executions.length = 1 :=
    Run.exists_of_exec (by decide +kernel)
  obtain ⟨s, run, one⟩ := found
  obtain ⟨execution, only⟩ := List.length_eq_one_iff.mp one
  have dispatched : execution ∈ s.executions := by
    rw [only]
    exact List.mem_singleton_self execution
  refine ⟨s, execution, run, dispatched, ?_⟩
  exact (dispatched_admitted crypto flags (config 1) (fingerprints 1) 0 _ s run execution
    dispatched).mpr (fun _ => by decide)

end ConfidentialCompute
