import ConfidentialCompute.Enclave.ConfigVotes
import ConfidentialCompute.Executor.Refresh
import ConfidentialCompute.Hashing

/-!
# A change of membership reaches the enclave

The nodes of a DON learn of its new membership each from its own registry, at their own times. Each
reads the configuration of the enclaves and sends a vote for a configuration with the members it
has seen. To the enclave the votes come one by one, mixed with those of faulty signers, executions
and garbage collections. None of them is lost: while the configuration in force stays, every valid
vote of the last `configVoteTTL` is pending, and the one that completes a quorum applies the
configuration.
-/

namespace ConfidentialCompute

open Go Runs

variable {p : Platform} {s s' m k : EnclaveServer} {l : EnclaveLabel}
  {ls early late : List EnclaveLabel} {h : Bytes32} {signer : Slice UInt8}

/-! ## No vote is lost -/

/-- `l` is a PATCH request in which the verifier finds a vote of `signer` for the configuration
with hash `h`, when `config` is in force. -/
def VoteBy (crypto : Crypto) (config : EnclaveConfig) (h : Bytes32) (signer : Slice UInt8)
    (l : EnclaveLabel) : Prop :=
  ∃ voted signature attestor, l.action = .updateConfig (.config voted signature) attestor ∧
    voted.hash crypto = h ∧
    verifySignature crypto (configUpdatePayload crypto h) signature config.signers = .ok signer

/-- A valid vote is recorded or applies its configuration. -/
theorem EnclaveServer.step_vote (isSet : s.configSet = true)
    (changes : h ≠ s.config.hash p.toCrypto) (vote : VoteBy p.toCrypto s.config h signer l)
    (taken : s.step p l = some s') :
    s'.config.hash p.toCrypto = h ∨
      ((s.votesWith p.toCrypto l.now h signer).card < s.config.f.toNat + 1 ∧
        s'.pendingConfigVotes = (s.recordVote p.toCrypto l.now h signer).pendingConfigVotes) := by
  obtain ⟨voted, signature, attestor, action, rfl, verified⟩ := vote
  obtain ⟨_, acted⟩ := step_eq_some taken
  rw [action] at acted
  cases acted
  unfold handleUpdateConfig
  simp only [isSet, not_true_eq_false, if_false, verified, if_neg changes]
  have applied (t : EnclaveServer) : (t.applyConfig voted).config = voted :=
    sameConfig_notifyApp.config
  split
  · rename_i few
    exact Or.inr ⟨few, rfl⟩
  · left
    split <;> exact congrArg (EnclaveConfig.hash p.toCrypto) (applied _)

/-- The entry for `h` was renewed at `since` or later, holds the digest `d`, and makes no quorum. -/
def Holds (s : EnclaveServer) (h : Bytes32) (since : Int) (d : Bytes32) : Prop :=
  ∃ item, s.pendingConfigVotes.items.lookup h = some item ∧ since ≤ item.creationTime ∧
    item.timeToLive = configVoteTTL ∧ item.value.card < s.config.f.toNat + 1 ∧ d ∈ item.value

variable {since : Int} {d : Bytes32}

/-- Within the window a step under which the configuration stays keeps what an entry holds. -/
theorem Holds.step (holds : Holds s h since d) (unbounded : s.pendingConfigVotes.maxEntries ≤ 0)
    (ttl : s.pendingConfigVotes.timeToLive = configVoteTTL) (taken : s.step p l = some s')
    (same : s'.config = s.config) (later : since ≤ l.now) (window : l.now ≤ since + configVoteTTL) :
    Holds s' h since d := by
  obtain ⟨item, lookup, renewed, lives, few, member⟩ := holds
  have alive : ¬ item.Expired l.now := by
    unfold CacheItem.Expired
    omega
  have effect := EnclaveServer.step_config taken
  rw [Holds, same]
  generalize l.action = a at effect
  cases effect with
  | same kept | posted _ kept =>
      rw [kept.pendingConfigVotes]
      exact ⟨item, lookup, renewed, lives, few, member⟩
  | @voted voted signature signer attestor _ valid small kept =>
      rw [kept.pendingConfigVotes]
      dsimp only [EnclaveServer.recordVote]
      rw [Cache.lookup_set (.of_unbounded unbounded)]
      split
      · rename_i same
        subst same
        have live : s.pendingConfigVotes.get l.now (voted.hash p.toCrypto) = some item.value :=
          Cache.get_eq_some_iff.mpr ⟨item, lookup, alive, rfl⟩
        refine ⟨_, rfl, later, ttl, small, Finset.mem_insert_of_mem ?_⟩
        rw [live]
        exact member
      · exact ⟨item, lookup, renewed, lives, few, member⟩
  | @applied voted _ _ _ _ valid _ kept =>
      have config : s'.config = voted := kept.config
      exact absurd (congrArg (EnclaveConfig.hash p.toCrypto) (config.symm.trans same)) valid.changes
  | collected kept =>
      rw [kept.pendingConfigVotes]
      rcases Cache.lookup_garbageCollect s.pendingConfigVotes l.now h with stays | ⟨_, gone⟩
      · exact ⟨item, stays.trans lookup, renewed, lives, few, member⟩
      · obtain ⟨item', lookup', dead⟩ := gone
        cases lookup.symm.trans lookup'
        exact absurd dead alive

/-- A vote is held right after it was taken, if the configuration stays. -/
theorem holds_of_vote (unbounded : s.pendingConfigVotes.maxEntries ≤ 0)
    (ttl : s.pendingConfigVotes.timeToLive = configVoteTTL) (isSet : s.configSet = true)
    (changes : h ≠ s.config.hash p.toCrypto) (vote : VoteBy p.toCrypto s.config h signer l)
    (taken : s.step p l = some s') (same : s'.config = s.config) (later : since ≤ l.now) :
    Holds s' h since (p.sha256 signer.data) := by
  rcases EnclaveServer.step_vote isSet changes vote taken with applied | ⟨small, recorded⟩
  · rw [same] at applied
    exact absurd applied.symm changes
  · refine ⟨⟨s.votesWith p.toCrypto l.now h signer, l.now, configVoteTTL⟩, ?_, later, rfl, ?_,
      Finset.mem_insert_self _ _⟩
    · rw [recorded]
      dsimp only [EnclaveServer.recordVote]
      rw [Cache.lookup_set (.of_unbounded unbounded), if_pos rfl, Option.getD_none, ttl]
    · rw [same]
      exact small

/-- **No vote is lost.** While the configuration stays, every vote of the window is pending, and
there is no quorum. -/
theorem votes_pending (unbounded : k.pendingConfigVotes.maxEntries ≤ 0)
    (ttl : k.pendingConfigVotes.timeToLive = configVoteTTL) {config : EnclaveConfig}
    (inForce : InForce p k late config) (changes : h ≠ config.hash p.toCrypto)
    (run : Run (EnclaveServer.step p) anyStep k late s)
    (window : ∀ l ∈ late, l.now ≤ k.clock + configVoteTTL) :
    ∀ l ∈ late, ∀ signer, VoteBy p.toCrypto config h signer l →
      Holds s h k.clock (p.sha256 signer.data) := by
  induction run with
  | nil => nofun
  | @snoc ls s s' l before _ taken ih =>
      intro vote among signer isVote
      obtain ⟨isSet, config₁⟩ := inForce ls s (List.prefix_append ls [l]) before
      obtain ⟨_, config₂⟩ := inForce (ls ++ [l]) s' List.prefix_rfl (.snoc before trivial taken)
      have same : s'.config = s.config := config₂.trans config₁.symm
      obtain ⟨ttl', cap⟩ := run_params before
      have later : k.clock ≤ l.now :=
        (run_clock (before.snoc trivial taken)).2 l (by simp)
      rw [← cap] at unbounded
      rw [← ttl'] at ttl
      rcases List.mem_append.mp among with old | new
      · have shorter : InForce p k ls config := fun done t isPrefix =>
          inForce done t (isPrefix.trans (List.prefix_append ls [l]))
        have held := ih shorter (fun l' among => window l' (by simp [among])) vote old signer isVote
        exact held.step unbounded ttl taken same later (window l (by simp))
      · cases List.mem_singleton.mp new
        rw [← config₁] at changes isVote
        exact holds_of_vote unbounded ttl isSet changes isVote taken same later

/-! ## The next configuration -/

theorem EnclaveServer.step_configSet (taken : s.step p l = some s') (isSet : s.configSet = true) :
    s'.configSet = true := by
  have effect := EnclaveServer.step_config taken
  generalize l.action = a at effect
  cases effect with
  | posted _ kept => exact kept.configSet
  | same kept | voted _ _ kept | applied _ _ kept | collected kept =>
      exact kept.configSet.trans isSet

/-- A configuration stays in force along a run, or there is a first step that replaces it. -/
theorem inForce_or_replaced (isSet : m.configSet = true)
    (run : Run (EnclaveServer.step p) anyStep m ls s) :
    InForce p m ls m.config ∨ ∃ pre s₁ l s₂,
      StepOf (EnclaveServer.step p) anyStep m ls pre s₁ l s₂ ∧ InForce p m pre m.config ∧
        s₂.config ≠ m.config := by
  induction run with
  | nil =>
      left
      intro done t isPrefix run
      cases List.prefix_nil.mp isPrefix
      cases run.eq_nil
      exact ⟨isSet, rfl⟩
  | @snoc ls s s' l before _ taken ih =>
      rcases ih with inForce | ⟨pre, s₁, l₁, s₂, st, before, replaced⟩
      · by_cases stays : s'.config = m.config
        · left
          intro done t isPrefix run
          rcases List.prefix_concat_iff.mp isPrefix with rfl | shorter
          · cases run.unique (before.snoc trivial taken)
            have still := (inForce ls s List.prefix_rfl before).1
            exact ⟨EnclaveServer.step_configSet taken still, stays⟩
          · exact inForce done t shorter run
        · exact Or.inr ⟨ls, s, l, s', .last before trivial taken, inForce, stays⟩
      · exact Or.inr ⟨pre, s₁, l₁, s₂, st.append [l], before, replaced⟩

section

variable {config newConfig : EnclaveConfig} {appConfigurable : Bool} {keychain : BoxKeychain}
  {start : Int} {before : List EnclaveLabel} {s₀ : EnclaveServer} {opening : EnclaveLabel}

/-- Nothing is pending when a configuration has just come into force. -/
theorem nothing_pending_of_opening
    (reached : Run (EnclaveServer.step p) anyStep
      (.newEnclaveServer config false appConfigurable keychain start) before s₀)
    (opened : s₀.step p opening = some m)
    (comes : s₀.configSet = false ∨ s₀.config ≠ m.config) (h : Bytes32) :
    m.pendingConfigVotes.items.lookup h = none := by
  have inv := VotesGoverned.of_run reached
  cases wasSet : s₀.configSet with
  | false => exact inv.noVotes opened wasSet h
  | true =>
      have replaced : s₀.config ≠ m.config := comes.resolve_left (by rw [wasSet]; nofun)
      have effect := EnclaveServer.step_config opened
      generalize opening.action = a at effect
      cases effect with
      | same kept | voted _ _ kept | collected kept => exact absurd kept.config.symm replaced
      | posted allowed _ =>
          have open_ := allowed wasSet
          rw [inv.locked] at open_
          cases open_
      | applied _ _ kept =>
          rw [kept.pendingConfigVotes]
          rfl

/-- **A quorum of votes is enough.** Let a configuration have come into force at `m`, and let at
most `F` of its signers be faulty, while the others vote for `newConfig` only. When `F + 1` signers
vote for `newConfig` within one window, then `newConfig` replaces the configuration, at the latest
with the last of these votes, whatever else the enclave is asked to do meanwhile. -/
theorem quorum_reconfigures
    (reached : Run (EnclaveServer.step p) anyStep
      (.newEnclaveServer config false appConfigurable keychain start) before s₀)
    (opened : s₀.step p opening = some m) (isSet : m.configSet = true)
    (comes : s₀.configSet = false ∨ s₀.config ≠ m.config)
    (first : Run (EnclaveServer.step p) anyStep m early k)
    (second : Run (EnclaveServer.step p) anyStep k late s)
    (window : ∀ l ∈ late, l.now ≤ k.clock + configVoteTTL)
    (changes : newConfig.hash p.toCrypto ≠ m.config.hash p.toCrypto)
    {voters faulty : Finset (Slice UInt8)} (enough : m.config.f.toNat + 1 ≤ voters.card)
    (distinct : Set.InjOn (fun voter : Slice UInt8 => p.sha256 voter.data) voters)
    (votes : ∀ voter ∈ voters, ∃ l ∈ late,
      VoteBy p.toCrypto m.config (newConfig.hash p.toCrypto) voter l)
    (few : faulty.card ≤ m.config.f.toNat)
    (honest : ∀ l ∈ early ++ late, ∀ other, ∀ signer ∈ m.config.signers, signer ∉ faulty →
      VoteFor p.toCrypto other signer l → other.hash p.toCrypto = newConfig.hash p.toCrypto) :
    ∃ pre s₁ l s₂, StepOf (EnclaveServer.step p) anyStep m (early ++ late) pre s₁ l s₂ ∧
      InForce p m pre m.config ∧ s₂.config.hash p.toCrypto = newConfig.hash p.toCrypto ∧
      ∃ signature attestor, l.action = .updateConfig (.config s₂.config signature) attestor := by
  have inv := (VotesGoverned.of_run reached).step reached opened
  have nothing := nothing_pending_of_opening reached opened comes
  have params := run_params ((reached.snoc trivial opened).trans first)
  rcases inForce_or_replaced isSet (first.trans second) with inForce | found
  · -- all votes of the window are pending, and they make a quorum
    have staying : InForce p k late m.config := fun done t isPrefix run =>
      inForce (early ++ done) t ((List.prefix_append_right_inj early).mpr isPrefix)
        (first.trans run)
    have pending := votes_pending (by rw [params.2]; exact Int.le_refl 0) params.1 staying changes
      second window
    obtain ⟨voter, isVoter⟩ : voters.Nonempty := Finset.card_pos.mp (by omega)
    obtain ⟨l, among, isVote⟩ := votes voter isVoter
    obtain ⟨item, lookup, _, _, small, _⟩ := pending l among voter isVote
    have counted : voters.card ≤ item.value.card := by
      refine Quorum.card_le_of_digests distinct fun voter isVoter => ?_
      obtain ⟨l, among, isVote⟩ := votes voter isVoter
      obtain ⟨item', lookup', _, _, _, member⟩ := pending l among voter isVote
      cases lookup.symm.trans lookup'
      exact member
    rw [(staying late s List.prefix_rfl second).2] at small
    omega
  · -- the votes that replaced it include one of a signer that is not faulty
    obtain ⟨pre, s₁, l, s₂, st, inForce, replaced⟩ := found
    have ⟨⟨post, isLabels⟩, run, _, taken⟩ := st
    obtain ⟨set₁, config₁⟩ := inForce pre s₁ List.prefix_rfl run
    have governed : VotesGoverned p m pre s₁ := by
      apply run.invariant_history
      · exact ⟨inv.locked, inv.unbounded, fun _ => nothing,
          fun _ => .fresh .nil isSet nothing⟩
      · intro ls s l s' before inv _ taken
        exact inv.step before taken
    rw [← config₁] at replaced
    obtain ⟨action, _, since, _, isPre, _, _, signers, many, each⟩ :=
      governed.change run taken set₁ replaced
    rw [config₁] at many each
    obtain ⟨signer, isSigner, notFaulty⟩ := Quorum.exists_honest few many
    obtain ⟨allowed, vote, among, isVote⟩ := each signer isSigner
    refine ⟨pre, s₁, l, s₂, st, inForce, honest vote ?_ s₂.config signer allowed notFaulty isVote,
      action⟩
    rw [isLabels, isPre]
    rcases List.mem_append.mp among with earlier | last
    · simp [earlier]
    · simp [List.mem_singleton.mp last]

/-! ## The votes of the executors -/

/-- A vote that an executor sends when its registry has reported the members of `don`, in any
order, and the first enclave it has asked has the key and the threshold of `config`. -/
def ProposalFor (crypto : Crypto) (don : WorkflowDON) (config : EnclaveConfig) (vote : ConfigVote) :
    Prop :=
  ∃ (seen : WorkflowDON) (state : MembershipState) (w : ProposalWorld)
      (currentConfig : EnclaveConfig) (others : List EnclaveConfig),
    seen.members.data.Perm don.members.data ∧ seen.f = don.f ∧
      w.enclaveConfigs = .ok (currentConfig :: others) ∧ currentConfig.SameKey config ∧
      (broadcastConfigUpdate crypto state (peerIDsToSortedBytes seen.members) seen.f.toUInt32
        w).vote = some vote

/-- `config` with the membership of `don`. -/
def withMembership (don : WorkflowDON) (config : EnclaveConfig) : EnclaveConfig :=
  proposal (peerIDsToSortedBytes don.members) don.f.toUInt32 config

/-- **Executors that have seen one membership vote for one configuration.** -/
theorem config_of_proposal {crypto : Crypto} {don : WorkflowDON} {vote : ConfigVote}
    (sent : ProposalFor crypto don config vote) : vote.config = withMembership don config := by
  obtain ⟨seen, state, w, currentConfig, others, members, sameF, returned, key, isVote⟩ := sent
  obtain ⟨_, _, _, built⟩ := (vote_sent_iff returned).mp isVote
  obtain ⟨_, isConfig, _⟩ := vote_sendVote_iff.mp built
  have sorted : sortedSlice (peerIDsToSortedBytes seen.members) =
      sortedSlice (peerIDsToSortedBytes don.members) := by
    apply Slice.data_injective
    exact congrArg sortedBytesCopy (sortedBytesCopy_eq_iff.mpr (members.map _))
  rw [isConfig]
  unfold withMembership proposal
  rw [sorted, sameF, key.1, key.2]

/-- The texts whose digests the enclave compares while `config` is in force: the keys of the
signers, and the configurations. -/
def votedTexts (config newConfig : EnclaveConfig) (ls : List EnclaveLabel) : Set Bytes :=
  fun text => (∃ key ∈ config.signers, key.data = text) ∨ config.preimage = text ∨
    newConfig.preimage = text ∨ ∃ l ∈ ls, ∃ voted signature attestor,
      l.action = .updateConfig (.config voted signature) attestor ∧ voted.preimage = text

/-- **A change of membership reaches the enclave**, which does not allow reconfiguration. Let a
configuration have come into force at `m`, and let at most `F` of its signers be faulty, while the
others sign what their executors propose for the membership of `don`, after they have read the key
and the threshold in force. When the proposals of `F + 1` signers arrive within one window,
then the next configuration of the enclave has the membership of `don`, and the key and the
threshold of the one before, whatever else the enclave is asked to do meanwhile. -/
theorem membership_adopted
    (reached : Run (EnclaveServer.step p) anyStep
      (.newEnclaveServer config false appConfigurable keychain start) before s₀)
    (opened : s₀.step p opening = some m) (isSet : m.configSet = true)
    (comes : s₀.configSet = false ∨ s₀.config ≠ m.config)
    (first : Run (EnclaveServer.step p) anyStep m early k)
    (second : Run (EnclaveServer.step p) anyStep k late s)
    (window : ∀ l ∈ late, l.now ≤ k.clock + configVoteTTL) {don : WorkflowDON}
    (changes : withMembership don m.config ≠ m.config)
    (collisionFree : p.toCrypto.CollisionFree
      (votedTexts m.config (withMembership don m.config) (early ++ late)))
    {voters faulty : Finset (Slice UInt8)} (enough : m.config.f.toNat + 1 ≤ voters.card)
    (votes : ∀ voter ∈ voters, ∃ l ∈ late, ∃ vote attestor,
      ProposalFor p.toCrypto don m.config vote ∧
        l.action = .updateConfig (.config vote.config vote.signature) attestor ∧
        verifySignature p.toCrypto (configUpdatePayload p.toCrypto (vote.config.hash p.toCrypto))
          vote.signature m.config.signers = .ok voter)
    (few : faulty.card ≤ m.config.f.toNat)
    (honest : ∀ l ∈ early ++ late, ∀ voted signature attestor,
      l.action = .updateConfig (.config voted signature) attestor →
        ∀ signer ∈ m.config.signers, signer ∉ faulty →
          p.ed25519Verify signer.data
            (configUpdatePayload p.toCrypto (voted.hash p.toCrypto)) signature.data = true →
          ∃ vote, ProposalFor p.toCrypto don m.config vote ∧ vote.config = voted) :
    ∃ pre s₁ l s₂, StepOf (EnclaveServer.step p) anyStep m (early ++ late) pre s₁ l s₂ ∧
      InForce p m pre m.config ∧ s₂.config = withMembership don m.config := by
  have differ : (withMembership don m.config).hash p.toCrypto ≠ m.config.hash p.toCrypto := by
    intro same
    exact changes (EnclaveConfig.preimage_injective (collisionFree _ (Or.inr (Or.inr (Or.inl rfl)))
      _ (Or.inr (Or.inl rfl)) same))
  have allowed : ∀ voter ∈ voters, voter ∈ m.config.signers := by
    intro voter isVoter
    obtain ⟨_, _, _, _, _, _, verified⟩ := votes voter isVoter
    exact (verifySignature_ok verified).1
  have distinct : Set.InjOn (fun voter : Slice UInt8 => p.sha256 voter.data) voters := by
    intro a isA b isB same
    exact Slice.data_injective (collisionFree _ (Or.inl ⟨a, allowed a isA, rfl⟩) _
      (Or.inl ⟨b, allowed b isB, rfl⟩) same)
  have counted : ∀ voter ∈ voters, ∃ l ∈ late,
      VoteBy p.toCrypto m.config ((withMembership don m.config).hash p.toCrypto) voter l := by
    intro voter isVoter
    obtain ⟨l, among, vote, attestor, sent, action, verified⟩ := votes voter isVoter
    rw [config_of_proposal sent] at action verified
    exact ⟨l, among, _, _, _, action, rfl, verified⟩
  have single : ∀ l ∈ early ++ late, ∀ other, ∀ signer ∈ m.config.signers, signer ∉ faulty →
      VoteFor p.toCrypto other signer l →
        other.hash p.toCrypto = (withMembership don m.config).hash p.toCrypto := by
    intro l among other signer allowed notFaulty isVote
    obtain ⟨voted, signature, attestor, action, hash, verified⟩ := isVote
    rw [← hash] at verified
    obtain ⟨vote, sent, isVoted⟩ :=
      honest l among voted signature attestor action signer allowed notFaulty verified
    rw [← hash, ← isVoted, config_of_proposal sent]
  obtain ⟨pre, s₁, l, s₂, st, inForce, next, signature, attestor, action⟩ :=
    quorum_reconfigures reached opened isSet comes first second window differ enough distinct
      counted few single
  refine ⟨pre, s₁, l, s₂, st, inForce, EnclaveConfig.preimage_injective ?_⟩
  exact collisionFree _ (Or.inr (Or.inr (Or.inr ⟨l, st.mem, _, signature, attestor, action, rfl⟩)))
    _ (Or.inr (Or.inr (Or.inl rfl))) next

end

namespace Sample

/-- The members whose keys sign the sample configurations, as two registries list them. -/
def members : WorkflowDON := ⟨1, ⟨[key 1, key 2, key 3, key 4], by decide⟩, 0⟩

def otherOrder : WorkflowDON := ⟨1, ⟨[key 4, key 2, key 1, key 3], by decide⟩, 0⟩

theorem sortedSlice_members {don : WorkflowDON}
    (perm : don.members.data.Perm members.members.data) :
    sortedSlice (peerIDsToSortedBytes don.members) = (config 0).signers := by
  apply Slice.data_injective
  calc sortedBytesCopy (peerIDsToSortedBytes don.members).data
    _ = (peerIDsToSortedBytes don.members).data := sortedBytesCopy_idem _
    _ = sortedBytesCopy (config 0).signers.data := sortedBytesCopy_eq_iff.mpr (perm.map _)
    _ = (config 0).signers.data := List.mergeSort_of_pairwise (by decide +kernel)

theorem withMembership_members : withMembership members (config 1) = config 0 := by
  unfold withMembership proposal
  rw [sortedSlice_members .rfl]
  rfl

/-- Signer `n` has seen an enclave with `F = 1`, and its vote is answered. -/
def proposer (n : UInt8) : ProposalWorld :=
  ⟨.ok [config 1], none, fun message => .ok (sign n message), none⟩

theorem proposalFor_members (n : UInt8) : ProposalFor crypto members (config 1)
    ⟨config 0, sign n (configUpdatePayload crypto ((config 0).hash crypto))⟩ := by
  have perm : otherOrder.members.data.Perm members.members.data := by decide +kernel
  refine ⟨otherOrder, .empty, proposer n, config 1, [], perm, rfl, rfl, ⟨rfl, rfl⟩,
    (vote_sent_iff rfl).mpr ⟨rfl, ?_, ?_, ?_⟩⟩
  · intro other among
    rw [sortedSlice_members perm] at among
    cases List.mem_singleton.mp among
    exact ⟨rfl, rfl⟩
  · intro all
    exact absurd (all (config 1) List.mem_cons_self).1 (by decide)
  · unfold proposal
    rw [sortedSlice_members perm]
    rfl

/-- A faulty signer votes for one configuration, and two others for another one. -/
def mixedVotes : List EnclaveLabel :=
  [vote minute 3 (config 2), vote (2 * minute) 1 (config 0), vote (3 * minute) 2 (config 0)]

def configured : EnclaveServer :=
  { server 1 with config := config 1, configSet := true, attested := [.setConfig (config 1)] }

theorem mixedVotes_collisionFree : crypto.CollisionFree
    (votedTexts (config 1) (withMembership members (config 1)) ([] ++ mixedVotes)) := by
  rw [withMembership_members]
  refine .of_list [(key 1).data, (key 2).data, (key 3).data, (key 4).data, (config 0).preimage,
    (config 1).preimage, (config 2).preimage] (fun text among => ?_) (by decide +kernel)
  rcases among with ⟨signer, isSigner, rfl⟩ | rfl | rfl | ⟨l, isVote, _, _, _, action, rfl⟩
  · have one : signer ∈ [1, 2, 3, 4].map Sample.signer := isSigner
    simp only [List.map_cons, List.map_nil, List.mem_cons, List.not_mem_nil, or_false] at one
    rcases one with rfl | rfl | rfl | rfl <;> simp [Sample.signer]
  · simp
  · simp
  · simp only [mixedVotes, List.nil_append, List.mem_cons, List.not_mem_nil, or_false] at isVote
    rcases isVote with rfl | rfl | rfl <;> cases action <;> simp

theorem mixedVotes_honest : ∀ l ∈ [] ++ mixedVotes, ∀ voted signature attestor,
    l.action = .updateConfig (.config voted signature) attestor →
      ∀ signer ∈ (config 1).signers, signer ∉ ({Sample.signer 3} : Finset (Slice UInt8)) →
        crypto.ed25519Verify signer.data (configUpdatePayload crypto (voted.hash crypto))
          signature.data = true →
        ∃ vote, ProposalFor crypto members (config 1) vote ∧ vote.config = voted := by
  intro l among voted signature attestor action signer isSigner notFaulty verified
  simp only [mixedVotes, List.nil_append, List.mem_cons, List.not_mem_nil, or_false] at among
  rcases among with rfl | rfl | rfl
  · cases action
    have one : signer ∈ [1, 2, 3, 4].map Sample.signer := isSigner
    simp only [List.map_cons, List.map_nil, List.mem_cons, List.not_mem_nil, or_false] at one
    rcases one with rfl | rfl | rfl | rfl
    · exact absurd verified (by decide +kernel)
    · exact absurd verified (by decide +kernel)
    · exact absurd (Finset.mem_singleton_self _) notFaulty
    · exact absurd verified (by decide +kernel)
  · cases action
    exact ⟨_, proposalFor_members 1, rfl⟩
  · cases action
    exact ⟨_, proposalFor_members 2, rfl⟩

theorem mixedVotes_voters :
    ∀ voter ∈ ({Sample.signer 1, Sample.signer 2} : Finset (Slice UInt8)), ∃ l ∈ mixedVotes,
      ∃ vote attestor, ProposalFor crypto members (config 1) vote ∧
      l.action = .updateConfig (.config vote.config vote.signature) attestor ∧
      verifySignature crypto (configUpdatePayload crypto (vote.config.hash crypto)) vote.signature
        (config 1).signers = .ok voter := by
  intro voter isVoter
  rcases Finset.mem_insert.mp isVoter with rfl | isSecond
  · exact ⟨vote (2 * minute) 1 (config 0), by simp [mixedVotes], _, _, proposalFor_members 1, rfl,
      by decide +kernel⟩
  · cases Finset.mem_singleton.mp isSecond
    exact ⟨vote (3 * minute) 2 (config 0), by simp [mixedVotes], _, _, proposalFor_members 2, rfl,
      by decide +kernel⟩

end Sample

section

open Sample

theorem membership_adopted_mixed : ∃ s pre s₁ l s₂,
    (server 1).step platform (post (config 1)) = some configured ∧
      Run (EnclaveServer.step platform) anyStep configured mixedVotes s ∧
      StepOf (EnclaveServer.step platform) anyStep configured mixedVotes pre s₁ l s₂ ∧
      InForce platform configured pre (config 1) ∧
      s₂.config = withMembership members (config 1) := by
  obtain ⟨s, run, _⟩ : ∃ s, Run (EnclaveServer.step platform) anyStep configured mixedVotes s ∧
      s.configSet = true :=
    Run.exists_of_exec (by decide +kernel)
  have changes : withMembership members (config 1) ≠ config 1 := by
    rw [withMembership_members]
    decide +kernel
  obtain ⟨pre, s₁, l, s₂, st, inForce, next⟩ := membership_adopted .nil
    (rfl : (server 1).step platform (post (config 1)) = some configured) rfl (Or.inl rfl)
    .nil run (by decide +kernel) changes mixedVotes_collisionFree (by decide +kernel)
    mixedVotes_voters (by decide) mixedVotes_honest
  exact ⟨s, pre, s₁, l, s₂, rfl, run, st, inForce, next⟩

end

end ConfidentialCompute
