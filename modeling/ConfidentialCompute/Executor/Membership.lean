import ConfidentialCompute.Client
import ConfidentialCompute.Executor.Secrets
import ConfidentialCompute.Sample

/-!
# Votes for a new membership

When the membership of the DON changes, `broadcastConfigUpdate` of the executor proposes a
configuration with the new signers and the new `F`. The key and the threshold of the proposal
are those of the first enclave, and a loop over the configurations of all enclaves checks that
the others have the same. The loop also looks for an enclave that does not have the new
membership yet, and stops at the first it finds; the enclaves after it are not checked.
-/

namespace ConfidentialCompute

open Go

/-! ## The proposal -/

/-- The fields of `RealExecutor` that a proposal reads or changes. -/
structure MembershipState where
  proposalInFlight : Bool
  donMembers : List (Slice UInt8)
  donF : UInt32

/-- What the executor learns from outside in one call: the end of `GetConfigs`, of
`json.Marshal`, of the signature service and of `UpdateConfig`. -/
structure ProposalWorld where
  enclaveConfigs : Except Bytes (List EnclaveConfig)
  marshalError : Option Bytes
  sign : Bytes → Except Bytes (Slice UInt8)
  updateError : Option Bytes

/-- `UpdateConfigRequest`, before the configuration is marshalled. -/
structure ConfigVote where
  config : EnclaveConfig
  signature : Slice UInt8
deriving DecidableEq

/-- A sorted copy of a slice. -/
def sortedSlice (members : Slice (Slice UInt8)) : Slice (Slice UInt8) :=
  ⟨sortedBytesCopy members.data, by
    rw [sortedBytesCopy, List.length_mergeSort]
    exact members.bound⟩

def EnclaveConfig.SameKey (a b : EnclaveConfig) : Prop :=
  a.masterPublicKey = b.masterPublicKey ∧ a.t = b.t

instance (a b : EnclaveConfig) : Decidable (a.SameKey b) := inferInstanceAs (Decidable (_ ∧ _))

/-- The enclave has the membership already; `newMembers` is sorted. -/
def EnclaveConfig.HasMembership (config : EnclaveConfig) (newMembers : Slice (Slice UInt8))
    (newF : UInt32) : Prop :=
  config.f = newF ∧ sortedBytesCopy config.signers.data = newMembers.data

instance (config : EnclaveConfig) (newMembers : Slice (Slice UInt8)) (newF : UInt32) :
    Decidable (config.HasMembership newMembers newF) := inferInstanceAs (Decidable (_ ∧ _))

def inconsistentKey (currentConfig : EnclaveConfig) : ExecutorError :=
  errorf (ascii "enclave public key " ++ Base64.encode currentConfig.masterPublicKey.data ++
    ascii " has a different master public key or T than the first enclave public key (this should never happen)")

/-- The loop over the configurations: its result is `configsMatch`. -/
def compareConfigs (newMembers : Slice (Slice UInt8)) (newF : UInt32)
    (currentConfig : EnclaveConfig) : Bool → List EnclaveConfig → Except ExecutorError Bool
  | configsMatch, [] => .ok configsMatch
  | _, enclaveConfig :: rest =>
      if ¬ enclaveConfig.SameKey currentConfig then .error (inconsistentKey currentConfig)
      else if ¬ enclaveConfig.HasMembership newMembers newF then .ok false
      else compareConfigs newMembers newF currentConfig true rest

/-- What a call leaves behind, the vote it has sent, and what it returns. -/
structure ProposalResult where
  state : MembershipState
  vote : Option ConfigVote
  result : Except ExecutorError Unit

/-- From the proposed configuration on. -/
def sendVote (crypto : Crypto) (state : MembershipState) (newConfig : EnclaveConfig)
    (w : ProposalWorld) : ProposalResult :=
  match w.marshalError with
  | some err =>
      ⟨state, none, .error (errorf (ascii "failed to marshal proposed enclave config: " ++ err))⟩
  | none =>
      match w.sign (configUpdatePayload crypto (newConfig.hash crypto)) with
      | .error err =>
          ⟨state, none, .error (errorf (ascii "failed to sign enclave config update: " ++ err))⟩
      | .ok sig =>
          match w.updateError with
          | some err => ⟨state, some ⟨newConfig, sig⟩,
              .error (errorf (ascii "config update broadcast reported errors: " ++ err))⟩
          | none => ⟨state, some ⟨newConfig, sig⟩, .ok ()⟩

/-- `proposalInFlight` is taken at the start and given back at the end. -/
def broadcastConfigUpdate (crypto : Crypto) (state : MembershipState)
    (newMembers : Slice (Slice UInt8)) (newF : UInt32) (w : ProposalWorld) : ProposalResult :=
  if state.proposalInFlight then ⟨state, none, .ok ()⟩
  else
    match w.enclaveConfigs with
    | .error err =>
        ⟨state, none, .error (errorf (ascii "failed to fetch current enclave config: " ++ err))⟩
    | .ok [] => ⟨state, none,
        .error (errorf (ascii "no enclave configs available to read current config"))⟩
    | .ok (currentConfig :: others) =>
        let newMembers := sortedSlice newMembers
        match compareConfigs newMembers newF currentConfig false (currentConfig :: others) with
        | .error err => ⟨state, none, .error err⟩
        | .ok true =>
            ⟨{ state with donMembers := newMembers.data, donF := newF }, none, .ok ()⟩
        | .ok false =>
            sendVote crypto state
              ⟨newMembers, currentConfig.masterPublicKey, currentConfig.t, newF⟩ w

/-! ## What the loop has looked at -/

/-- The configurations up to the first that does not have the membership, and that one. -/
def examined (newMembers : Slice (Slice UInt8)) (newF : UInt32) :
    List EnclaveConfig → List EnclaveConfig
  | [] => []
  | enclaveConfig :: rest =>
      enclaveConfig ::
        if enclaveConfig.HasMembership newMembers newF then examined newMembers newF rest else []

/-- A proposal that gets as far as the signature is signed. -/
def ProposalWorld.Signs (w : ProposalWorld) (crypto : Crypto) (newConfig : EnclaveConfig) : Prop :=
  w.marshalError = none ∧
    ∃ sig, w.sign (configUpdatePayload crypto (newConfig.hash crypto)) = .ok sig

section

variable {crypto : Crypto} {newMembers : Slice (Slice UInt8)} {newF : UInt32}
  {currentConfig : EnclaveConfig}

/-- The loop ends without an error exactly when what it has looked at has one key. -/
theorem compareConfigs_ok_iff {configs : List EnclaveConfig} {start configsMatch : Bool} :
    compareConfigs newMembers newF currentConfig start configs = .ok configsMatch ↔
      (∀ config ∈ examined newMembers newF configs, config.SameKey currentConfig) ∧
        configsMatch = if configs = [] then start
          else decide (∀ config ∈ configs, config.HasMembership newMembers newF) := by
  induction configs generalizing start with
  | nil => simp [compareConfigs, examined, eq_comm]
  | cons config rest ih =>
      unfold compareConfigs examined
      by_cases same : config.SameKey currentConfig
      · by_cases member : config.HasMembership newMembers newF
        · rw [if_neg (not_not.mpr same), if_neg (not_not.mpr member), ih, if_pos member]
          cases rest with
          | nil => simp [examined, same, member]
          | cons second others => simp [same, member]
        · have differs : ¬ ∀ other ∈ config :: rest, other.HasMembership newMembers newF :=
            fun all => member (all config List.mem_cons_self)
          rw [if_neg (not_not.mpr same), if_pos member, if_neg member, decide_eq_false differs]
          simp [same, eq_comm]
      · simp [same]

/-- With every enclave on the new membership, the loop has looked at all of them. -/
theorem examined_eq {configs : List EnclaveConfig}
    (all : ∀ config ∈ configs, config.HasMembership newMembers newF) :
    examined newMembers newF configs = configs := by
  induction configs with
  | nil => rfl
  | cons config rest ih =>
      unfold examined
      rw [if_pos (all config List.mem_cons_self),
        ih fun other among => all other (List.mem_cons_of_mem _ among)]

/-- The configuration that is proposed to enclaves of which `currentConfig` is the first. -/
def proposal (newMembers : Slice (Slice UInt8)) (newF : UInt32) (currentConfig : EnclaveConfig) :
    EnclaveConfig :=
  ⟨sortedSlice newMembers, currentConfig.masterPublicKey, currentConfig.t, newF⟩

theorem vote_sendVote_iff {state : MembershipState} {newConfig : EnclaveConfig}
    {w : ProposalWorld} {vote : ConfigVote} :
    (sendVote crypto state newConfig w).vote = some vote ↔
      w.marshalError = none ∧ vote.config = newConfig ∧
        w.sign (configUpdatePayload crypto (newConfig.hash crypto)) = .ok vote.signature := by
  obtain ⟨config, signature⟩ := vote
  unfold sendVote
  cases w.marshalError with
  | some err => simp
  | none =>
      cases w.sign (configUpdatePayload crypto (newConfig.hash crypto)) with
      | error err => simp
      | ok sig => cases w.updateError <;> simp [eq_comm]

/-- A vote is sent when the enclaves looked at have one key, some enclave does not have the
membership, and the proposal is signed. -/
theorem vote_sent_iff {state : MembershipState} {w : ProposalWorld}
    {others : List EnclaveConfig} (returned : w.enclaveConfigs = .ok (currentConfig :: others))
    {vote : ConfigVote} :
    (broadcastConfigUpdate crypto state newMembers newF w).vote = some vote ↔
      state.proposalInFlight = false ∧
        (∀ config ∈ examined (sortedSlice newMembers) newF (currentConfig :: others),
          config.SameKey currentConfig) ∧
        (¬ ∀ config ∈ currentConfig :: others,
          config.HasMembership (sortedSlice newMembers) newF) ∧
        (sendVote crypto state (proposal newMembers newF currentConfig) w).vote = some vote := by
  unfold broadcastConfigUpdate
  rw [returned]
  cases state.proposalInFlight with
  | true => simp
  | false =>
      dsimp only
      rw [if_neg Bool.false_ne_true]
      have ended := @compareConfigs_ok_iff (sortedSlice newMembers) newF currentConfig
        (currentConfig :: others) false
      rw [if_neg (List.cons_ne_nil _ _)] at ended
      cases compared : compareConfigs (sortedSlice newMembers) newF currentConfig false
          (currentConfig :: others) with
      | error err =>
          have differ : ¬ ∀ config ∈ examined (sortedSlice newMembers) newF
              (currentConfig :: others), config.SameKey currentConfig := by
            intro same
            cases compared.symm.trans (ended.mpr ⟨same, rfl⟩)
          simp [differ]
      | ok configsMatch =>
          obtain ⟨same, isMatch⟩ := ended.mp compared
          cases configsMatch with
          | true =>
              have all := of_decide_eq_true isMatch.symm
              constructor
              · intro sent
                cases sent
              · intro sent
                exact absurd all sent.2.2.1
          | false =>
              have some_ := of_decide_eq_false isMatch.symm
              exact ⟨fun sent => ⟨rfl, same, some_, sent⟩, fun sent => sent.2.2.2⟩

end

/-- A proposal to a non-empty list of enclaves, in any order, for any membership and `F`. Every
vote it sends has the key and the threshold of every enclave, exactly when, unless the proposal
is not sent for another reason, the enclaves up to the first without the new membership do not
have one key where others differ. -/
theorem membership_vote_keeps_key (crypto : Crypto) (state : MembershipState)
    (newMembers : Slice (Slice UInt8)) (newF : UInt32) (w : ProposalWorld)
    (currentConfig : EnclaveConfig) (others : List EnclaveConfig)
    (returned : w.enclaveConfigs = .ok (currentConfig :: others)) :
    (∀ vote, (broadcastConfigUpdate crypto state newMembers newF w).vote = some vote →
        ∀ config ∈ currentConfig :: others, vote.config.masterPublicKey = config.masterPublicKey ∧
          vote.config.t = config.t) ↔
      (state.proposalInFlight = false → w.Signs crypto (proposal newMembers newF currentConfig) →
        (∀ config ∈ examined (sortedSlice newMembers) newF (currentConfig :: others),
          config.SameKey currentConfig) →
        ∀ config ∈ currentConfig :: others, config.SameKey currentConfig) := by
  constructor
  · intro keeps idle signs same
    by_cases all : ∀ config ∈ currentConfig :: others,
        config.HasMembership (sortedSlice newMembers) newF
    · rwa [examined_eq all] at same
    · obtain ⟨marshals, sig, signed⟩ := signs
      have built : (sendVote crypto state (proposal newMembers newF currentConfig) w).vote =
          some ⟨proposal newMembers newF currentConfig, sig⟩ :=
        vote_sendVote_iff.mpr ⟨marshals, rfl, signed⟩
      have sent := (vote_sent_iff returned).mpr ⟨idle, same, all, built⟩
      intro config among
      obtain ⟨sameKey, sameT⟩ := keeps _ sent config among
      exact ⟨sameKey.symm, sameT.symm⟩
  · intro speaks vote sent config among
    obtain ⟨idle, same, _, built⟩ := (vote_sent_iff returned).mp sent
    obtain ⟨marshals, isProposal, signed⟩ := vote_sendVote_iff.mp built
    obtain ⟨sameKey, sameT⟩ := speaks idle ⟨marshals, _, signed⟩ same config among
    rw [isProposal]
    exact ⟨sameKey.symm, sameT.symm⟩

namespace Sample

/-- An executor that proposes nothing at the moment. -/
def idle : MembershipState := ⟨false, [], 0⟩

/-- The enclaves answer with the configurations, and what is to be signed is signed. -/
def answering (configs : List EnclaveConfig) : ProposalWorld :=
  ⟨.ok configs, none, fun message => .ok (sign 1 message), none⟩

/-- A configuration under the threshold key of signer `n`. -/
def configOfKey (n : UInt8) : EnclaveConfig := { config 1 with masterPublicKey := signer n }

/-- The first enclave does not have the new membership, and the loop stops there. -/
theorem voted (other : EnclaveConfig) :
    ∃ vote, (broadcastConfigUpdate crypto idle ∅ 2 (answering [configOfKey 1, other])).vote =
        some vote ∧ vote.config = proposal ∅ 2 (configOfKey 1) := by
  have stops : ¬ (configOfKey 1).HasMembership (sortedSlice ∅) 2 := by decide
  have built := (@vote_sendVote_iff crypto idle (proposal ∅ 2 (configOfKey 1))
    (answering [configOfKey 1, other]) ⟨proposal ∅ 2 (configOfKey 1), _⟩).mpr ⟨rfl, rfl, rfl⟩
  refine ⟨_, (vote_sent_iff rfl).mpr ⟨rfl, ?_, ?_, built⟩, rfl⟩
  · intro config among
    unfold examined at among
    rw [if_neg stops, List.mem_singleton] at among
    rw [among]
    exact ⟨rfl, rfl⟩
  · exact fun all => stops (all _ List.mem_cons_self)

end Sample

section

open Sample

/-- Two enclaves with one key, and a vote to both. -/
theorem membership_vote_keeps_key_two_enclaves :
    ∃ vote, (broadcastConfigUpdate crypto idle ∅ 2
        (answering [configOfKey 1, configOfKey 1])).vote = some vote ∧
      ∀ config ∈ [configOfKey 1, configOfKey 1],
        vote.config.masterPublicKey = config.masterPublicKey ∧ vote.config.t = config.t := by
  obtain ⟨vote, sent, _⟩ := voted (configOfKey 1)
  refine ⟨vote, sent, (membership_vote_keeps_key _ _ _ _ _ _ _ rfl).mpr ?_ vote sent⟩
  intro _ _ _ config among
  have eq : config = configOfKey 1 := by simpa using among
  exact ⟨congrArg EnclaveConfig.masterPublicKey eq, congrArg EnclaveConfig.t eq⟩

/-- The vote is for the key of the enclave that stops the loop, and the second has another. -/
theorem membership_vote_alters_key :
    ∃ vote, (broadcastConfigUpdate crypto idle ∅ 2
        (answering [configOfKey 1, configOfKey 2])).vote = some vote ∧
      vote.config.masterPublicKey ≠ (configOfKey 2).masterPublicKey := by
  obtain ⟨vote, sent, isProposal⟩ := voted (configOfKey 2)
  refine ⟨vote, sent, ?_⟩
  rw [isProposal]
  decide

end

end ConfidentialCompute
