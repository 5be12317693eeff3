import ConfidentialCompute.EnclaveSelection
import ConfidentialCompute.Executor.Membership
import ConfidentialCompute.Lib.Runs
import ConfidentialCompute.Lib.Sorting

/-!
# The membership that the executor accepts

`EnsureFreshEnclaves` reads the local node and the node list from the registry, brings the pool,
the Vault DON's threshold and the membership up to date. It is called again and again, and by the
refresh loop and the attempts of `Execute` at the same time. The membership it compares the
enclaves with is not the registry's latest: it is recorded only when every enclave was found to
run with it already, and what is recorded stays until the next such moment.
`validateEnclaveSigners` accepts a configuration by the recorded membership.
-/

namespace ConfidentialCompute

open Go Runs

/-! ## The code -/

/-- A DON as the registry reports it. -/
structure WorkflowDON where
  id : UInt32
  members : Slice Bytes32
  f : UInt8

structure RegistryNode where
  peerID : Option Bytes32
  workflowDON : WorkflowDON

/-- What a call learns from outside: the registry, how the capability's configuration unwraps,
the end of `UpdateNodes`, the Vault DON's fault bound if it has a DON, and what a proposal
learns. -/
structure RefreshWorld where
  localNode : Except Bytes RegistryNode
  nodeByPeerID : Bytes32 → Except Bytes RegistryNode
  configForCapability : UInt32 → Except Bytes (Except Bytes (Slice PoolNode))
  updateNodes : Slice PoolNode → Except Bytes Unit
  vaultInfo : Except Bytes (Option UInt8)
  proposal : ProposalWorld

/-- The fields of `RealExecutor` that a call changes. -/
structure RefreshState where
  enclaves : Slice PoolNode
  cryptographyThreshold : Int
  membership : MembershipState

/-- A fresh answer for the node's own ID takes the place of the local one. -/
def freshNode (w : RefreshWorld) (localNode : RegistryNode) : RegistryNode :=
  match localNode.peerID with
  | none => localNode
  | some peerID =>
      match w.nodeByPeerID peerID with
      | .error _ => localNode
      | .ok fresh => fresh

def getLocalNodeAndCapConfig (w : RefreshWorld) :
    Except ExecutorError (RegistryNode × Except Bytes (Slice PoolNode)) :=
  match w.localNode with
  | .error err => .error (errorf (ascii "failed to get local node: " ++ err))
  | .ok localNode =>
      let localNode := freshNode w localNode
      if localNode.workflowDON.id = 0 then
        .error (errorf (ascii "local node does not have a WorkflowDON ID, cannot initialise confidential http action capability"))
      else
        match w.configForCapability localNode.workflowDON.id with
        | .error err =>
            .error (errorf (ascii "failed to get confidential http capability config: " ++ err))
        | .ok ownCapabilityConfig => .ok (localNode, ownCapabilityConfig)

/-- `authHeader` is the header made from the API key, if there is one. -/
def getEnclaveNodes (authHeader : Option GoString)
    (selfCapConfig : Except Bytes (Slice PoolNode)) : Except ExecutorError (Slice PoolNode) :=
  match selfCapConfig with
  | .error err => .error (errorf (ascii "error decoding enclaves: " ++ err))
  | .ok enclaves =>
      match authHeader with
      | none => .ok enclaves
      | some header =>
          .ok (enclaves.map fun enclave => { enclave with enclaveAuthHeader := header })

def getVaultDONPossibleFaultyNodes (w : RefreshWorld) (localF : UInt8) :
    Except ExecutorError UInt8 :=
  match w.vaultInfo with
  | .error err => .error (errorf (ascii "failed to get VaultDON capability info: " ++ err))
  | .ok none => .ok localF
  | .ok (some f) => .ok f

def getVaultDONThreshold (possiblyFaultyNodes : UInt8) : Int := 2 * possiblyFaultyNodes.toNat + 1

def peerIDsToSortedBytes (members : Slice Bytes32) : Slice (Slice UInt8) :=
  sortedSlice (members.map fun m => ⟨m.data, by rw [m.length_eq]; decide⟩)

/-- With a baseline, nothing is done while the membership is unchanged. An error of the proposal
is logged and dropped. -/
def proposeConfigUpdateIfMembershipChanged (crypto : Crypto) (state : MembershipState)
    (newMembers : Slice (Slice UInt8)) (newF : UInt32) (w : ProposalWorld) : MembershipState :=
  if state.donMembers ≠ [] ∧ newF = state.donF ∧ newMembers.data = state.donMembers then state
  else (broadcastConfigUpdate crypto state newMembers newF w).state

/-- What a call leaves behind and what it returns. -/
structure RefreshResult where
  state : RefreshState
  result : Except ExecutorError Unit

def ensureFreshEnclaves (crypto : Crypto) (authHeader : Option GoString) (s : RefreshState)
    (w : RefreshWorld) : RefreshResult :=
  match getLocalNodeAndCapConfig w with
  | .error err => ⟨s, .error err⟩
  | .ok (localNode, ownCapabilityConfig) =>
      match getEnclaveNodes authHeader ownCapabilityConfig with
      | .error err =>
          ⟨s, .error (errorf (ascii "failed to create enclave pool: " ++ err.text))⟩
      | .ok nodes =>
          let nodes := sortEnclaveNodes nodes
          let s :=
            match w.updateNodes nodes with
            | .error _ => s
            | .ok () => { s with enclaves := nodes }
          match getVaultDONPossibleFaultyNodes w localNode.workflowDON.f with
          | .error err =>
              ⟨s, .error (errorf
                (ascii "failed to get VaultDON possible faulty nodes: " ++ err.text))⟩
          | .ok vaultDONPossibleFaultyNodes =>
              ⟨{ s with
                cryptographyThreshold := getVaultDONThreshold vaultDONPossibleFaultyNodes
                membership := proposeConfigUpdateIfMembershipChanged crypto s.membership
                  (peerIDsToSortedBytes localNode.workflowDON.members)
                  localNode.workflowDON.f.toUInt32 w.proposal }, .ok ()⟩

/-- The state after one call for each element of the list. -/
def refreshAll (crypto : Crypto) (authHeader : Option GoString) (s : RefreshState)
    (ws : List RefreshWorld) : RefreshState :=
  ws.foldl (fun s w => (ensureFreshEnclaves crypto authHeader s w).state) s

/-- No membership has been recorded. -/
def MembershipState.empty : MembershipState := ⟨false, [], 0⟩

/-! ## Calls at the same time

A call has four accesses to what the calls share. It compares the recorded membership with its
own, takes `proposalInFlight`, records its membership if every enclave has it, and gives
`proposalInFlight` back. -/

/-- The membership and `F` that a call goes on to propose, unless it has returned before. -/
def RefreshWorld.proposes (authHeader : Option GoString) (w : RefreshWorld) :
    Option (Slice (Slice UInt8) × UInt32) :=
  match getLocalNodeAndCapConfig w with
  | .error _ => none
  | .ok (localNode, ownCapabilityConfig) =>
      match getEnclaveNodes authHeader ownCapabilityConfig with
      | .error _ => none
      | .ok _ =>
          match getVaultDONPossibleFaultyNodes w localNode.workflowDON.f with
          | .error _ => none
          | .ok _ => some (peerIDsToSortedBytes localNode.workflowDON.members,
              localNode.workflowDON.f.toUInt32)

/-- The accesses that a call has still to make. -/
inductive ProposalPC where
  | comparing | taking | recording | givingBack | returned

/-- A call of `proposeConfigUpdateIfMembershipChanged`. -/
structure ProposalCall where
  world : RefreshWorld
  newMembers : Slice (Slice UInt8)
  newF : UInt32
  pc : ProposalPC

/-- The next access. Between taking `proposalInFlight` and giving it back, a call only records. -/
def ProposalCall.proceed (crypto : Crypto) (call : ProposalCall) (state : MembershipState) :
    Option (MembershipState × ProposalPC) :=
  match call.pc with
  | .comparing =>
      if state.donMembers ≠ [] ∧ call.newF = state.donF ∧
          call.newMembers.data = state.donMembers then some (state, .returned)
      else some (state, .taking)
  | .taking =>
      if state.proposalInFlight then some (state, .returned)
      else some ({ state with proposalInFlight := true }, .recording)
  | .recording =>
      -- the call holds `proposalInFlight` itself
      let recorded := (broadcastConfigUpdate crypto { state with proposalInFlight := false }
        call.newMembers call.newF call.world.proposal).state
      some ({ recorded with proposalInFlight := true }, .givingBack)
  | .givingBack => some ({ state with proposalInFlight := false }, .returned)
  | .returned => none

/-- What the executor has recorded, and the calls, which may overlap. -/
structure Proposals where
  membership : MembershipState
  calls : List ProposalCall

inductive ProposalsAction where
  | ensureFreshEnclaves (w : RefreshWorld)
  | proceed (c : Nat)

def Proposals.step (crypto : Crypto) (authHeader : Option GoString) (s : Proposals) :
    ProposalsAction → Option Proposals
  | .ensureFreshEnclaves w =>
      match w.proposes authHeader with
      | none => some s
      | some (newMembers, newF) =>
          some { s with calls := s.calls ++ [⟨w, newMembers, newF, .comparing⟩] }
  | .proceed c =>
      (s.calls[c]?).bind fun call =>
        (call.proceed crypto s.membership).map fun (state, pc) =>
          ⟨state, s.calls.set c { call with pc := pc }⟩

/-! ## What is recorded -/

/-- The recorded membership is one that the registry reported in this call and that every
configuration `GetConfigs` returned has. -/
def AttestedIn (state : MembershipState) (w : RefreshWorld) : Prop :=
  ∃ node capConfig configs, getLocalNodeAndCapConfig w = .ok (node, capConfig) ∧
    w.proposal.enclaveConfigs = .ok configs ∧ configs ≠ [] ∧
    state.donMembers = (peerIDsToSortedBytes node.workflowDON.members).data ∧
    state.donF = node.workflowDON.f.toUInt32 ∧
    ∀ config ∈ configs, config.signers.data.Perm state.donMembers ∧ config.f = state.donF

/-- The proposed membership is recorded, and every enclave has it. -/
def Records (newMembers : Slice (Slice UInt8)) (newF : UInt32) (w : ProposalWorld)
    (state : MembershipState) : Prop :=
  ∃ configs, w.enclaveConfigs = .ok configs ∧ configs ≠ [] ∧
    (∀ config ∈ configs, config.HasMembership (sortedSlice newMembers) newF) ∧
    state.donMembers = (sortedSlice newMembers).data ∧ state.donF = newF

section

variable {crypto : Crypto} {state : MembershipState} {newMembers : Slice (Slice UInt8)}
  {newF : UInt32} {w : ProposalWorld}

theorem sortedBytesCopy_idem (as : List (Slice UInt8)) :
    sortedBytesCopy (sortedBytesCopy as) = sortedBytesCopy as :=
  sortedBytesCopy_eq_iff.mpr (sortedBytesCopy_perm as)

theorem state_sendVote {newConfig : EnclaveConfig} :
    (sendVote crypto state newConfig w).state = state := by
  unfold sendVote
  split
  · rfl
  · split
    · rfl
    · split <;> rfl

/-- A proposal leaves the membership alone, unless every enclave has the new one. -/
theorem state_broadcastConfigUpdate :
    (broadcastConfigUpdate crypto state newMembers newF w).state = state ∨
      Records newMembers newF w (broadcastConfigUpdate crypto state newMembers newF w).state := by
  unfold broadcastConfigUpdate
  split
  · exact Or.inl rfl
  · split
    · exact Or.inl rfl
    · exact Or.inl rfl
    · rename_i currentConfig others returned
      dsimp only
      split
      · exact Or.inl rfl
      · rename_i compared
        obtain ⟨_, matched⟩ := compareConfigs_ok_iff.mp compared
        rw [if_neg (List.cons_ne_nil _ _)] at matched
        exact Or.inr ⟨_, returned, List.cons_ne_nil _ _, of_decide_eq_true matched.symm, rfl, rfl⟩
      · exact Or.inl state_sendVote

/-- What a call that proposes a membership records is attested in that call. -/
theorem Records.attestedIn {authHeader : Option GoString} {w : RefreshWorld}
    (proposes : w.proposes authHeader = some (newMembers, newF))
    (records : Records newMembers newF w.proposal state) : AttestedIn state w := by
  obtain ⟨configs, returned, some, all, members, f⟩ := records
  unfold RefreshWorld.proposes at proposes
  split at proposes
  · cases proposes
  · rename_i localNode capConfig registered
    split at proposes
    · cases proposes
    · split at proposes
      · cases proposes
      · cases proposes
        refine ⟨localNode, capConfig, configs, registered, returned, some, ?_, f, ?_⟩
        · rw [members]
          exact sortedBytesCopy_idem _
        · intro config member
          obtain ⟨sameF, signers⟩ := all config member
          refine ⟨?_, sameF.trans f.symm⟩
          rw [members, ← signers]
          exact (sortedBytesCopy_perm _).symm

end

section

variable {crypto : Crypto} {authHeader : Option GoString} {s : RefreshState}

theorem membership_ensureFreshEnclaves (w : RefreshWorld) :
    (ensureFreshEnclaves crypto authHeader s w).state.membership =
      match w.proposes authHeader with
      | none => s.membership
      | some (newMembers, newF) =>
          proposeConfigUpdateIfMembershipChanged crypto s.membership newMembers newF
            w.proposal := by
  unfold ensureFreshEnclaves RefreshWorld.proposes
  cases getLocalNodeAndCapConfig w with
  | error err => rfl
  | ok found =>
      obtain ⟨localNode, capConfig⟩ := found
      dsimp only
      cases getEnclaveNodes authHeader capConfig with
      | error err => rfl
      | ok nodes =>
          dsimp only
          -- The membership is the same whether or not the node list was updated.
          cases w.updateNodes (sortEnclaveNodes nodes) <;>
            cases getVaultDONPossibleFaultyNodes w localNode.workflowDON.f <;> rfl

/-- **One call.** The recorded membership stays, or it is one that the enclaves attest in this
very call. -/
theorem recorded_or_kept (crypto : Crypto) (authHeader : Option GoString) (s : RefreshState)
    (w : RefreshWorld) :
    (ensureFreshEnclaves crypto authHeader s w).state.membership = s.membership ∨
      AttestedIn (ensureFreshEnclaves crypto authHeader s w).state.membership w := by
  rw [membership_ensureFreshEnclaves]
  split
  · exact Or.inl rfl
  · rename_i newMembers newF proposes
    unfold proposeConfigUpdateIfMembershipChanged
    split
    · exact Or.inl rfl
    · exact state_broadcastConfigUpdate.imp id (Records.attestedIn proposes)

theorem refreshAll_concat (ws : List RefreshWorld) (w : RefreshWorld) :
    refreshAll crypto authHeader s (ws ++ [w]) =
      (ensureFreshEnclaves crypto authHeader (refreshAll crypto authHeader s ws) w).state :=
  List.foldl_concat _ _ _ _

theorem attested_of_refreshAll (recorded : s.membership.donMembers = [])
    (ws : List RefreshWorld)
    (some : (refreshAll crypto authHeader s ws).membership.donMembers ≠ []) :
    ∃ w ∈ ws, AttestedIn (refreshAll crypto authHeader s ws).membership w := by
  induction ws using List.reverseRecOn with
  | nil => exact (some recorded).elim
  | append_singleton ws w ih =>
      rw [refreshAll_concat] at some ⊢
      rcases recorded_or_kept crypto authHeader (refreshAll crypto authHeader s ws) w with
        same | attested
      · rw [same] at some ⊢
        obtain ⟨earlier, member, attested⟩ := ih some
        exact ⟨earlier, List.mem_append_left _ member, attested⟩
      · exact ⟨w, List.mem_append_right _ List.mem_cons_self, attested⟩

/-- **One access.** The recorded membership stays, or the call records its own. -/
theorem ProposalCall.proceed_cases {call : ProposalCall} {state state' : MembershipState}
    {pc : ProposalPC} (taken : call.proceed crypto state = some (state', pc)) :
    (∃ held, state' = { state with proposalInFlight := held }) ∨
      Records call.newMembers call.newF call.world.proposal state' := by
  unfold proceed at taken
  split at taken
  · split at taken <;> cases taken <;> exact Or.inl ⟨_, rfl⟩
  · split at taken <;> cases taken <;> exact Or.inl ⟨_, rfl⟩
  · cases taken
    rcases @state_broadcastConfigUpdate crypto { state with proposalInFlight := false }
      call.newMembers call.newF call.world.proposal with same | records
    · rw [same]
      exact Or.inl ⟨true, rfl⟩
    · exact Or.inr records
  · cases taken
    exact Or.inl ⟨false, rfl⟩
  · cases taken

/-- The calls in progress, and what they have recorded, after the steps `ls`. -/
structure Proposals.Attested (authHeader : Option GoString) (ls : List ProposalsAction)
    (s : Proposals) : Prop where
  calls : ∀ call ∈ s.calls, .ensureFreshEnclaves call.world ∈ ls ∧
    call.world.proposes authHeader = some (call.newMembers, call.newF)
  recorded : s.membership.donMembers ≠ [] →
    ∃ w, .ensureFreshEnclaves w ∈ ls ∧ AttestedIn s.membership w

theorem Proposals.Attested.step {s s' : Proposals} {ls : List ProposalsAction}
    {l : ProposalsAction} (attested : s.Attested authHeader ls)
    (taken : s.step crypto authHeader l = some s') : s'.Attested authHeader (ls ++ [l]) := by
  have earlier : s.Attested authHeader (ls ++ [l]) := by
    refine ⟨fun call member => ?_, fun some => ?_⟩
    · exact (attested.calls call member).imp_left (List.mem_append_left _)
    · obtain ⟨w, called, isAttested⟩ := attested.recorded some
      exact ⟨w, List.mem_append_left _ called, isAttested⟩
  cases l with
  | ensureFreshEnclaves w =>
      unfold Proposals.step at taken
      dsimp only at taken
      split at taken
      · cases taken
        exact earlier
      · rename_i newMembers newF proposes
        cases taken
        refine ⟨fun call member => ?_, earlier.recorded⟩
        rcases List.mem_append.mp member with old | new
        · exact earlier.calls call old
        · cases List.mem_singleton.mp new
          exact ⟨List.mem_append_right _ List.mem_cons_self, proposes⟩
  | proceed c =>
      obtain ⟨call, found, proceeds⟩ := Option.bind_eq_some_iff.mp taken
      obtain ⟨⟨state, pc⟩, access, rfl⟩ := Option.map_eq_some_iff.mp proceeds
      obtain ⟨called, proposes⟩ := earlier.calls call (List.mem_of_getElem? found)
      refine ⟨fun other member => ?_, fun some => ?_⟩
      · rcases List.mem_or_eq_of_mem_set member with old | rfl
        · exact earlier.calls other old
        · exact ⟨called, proposes⟩
      · rcases call.proceed_cases access with ⟨held, rfl⟩ | records
        · exact earlier.recorded some
        · exact ⟨call.world, called, Records.attestedIn proposes records⟩

theorem attested_of_run {ls : List ProposalsAction} {s : Proposals}
    (run : Run (Proposals.step crypto authHeader) anyStep ⟨.empty, []⟩ ls s) :
    s.Attested authHeader ls := by
  induction run with
  | nil => exact ⟨nofun, fun some => (some rfl).elim⟩
  | snoc _ _ taken ih => exact ih.step taken

/-- **The accepted membership was attested.** After any sequence of calls that began without a
membership, and also in every run of calls at the same time, one that is recorded is what the
registry reported in one of the calls and what every enclave had in that call; and configurations
are accepted by it. -/
theorem membership_attested (crypto : Crypto) (authHeader : Option GoString)
    (enclaves : Slice PoolNode) (threshold : Int) (ws : List RefreshWorld) :
    let state := (refreshAll crypto authHeader ⟨enclaves, threshold, .empty⟩ ws).membership
    (state.donMembers ≠ [] → ∃ w ∈ ws, AttestedIn state w) ∧
      (∀ ls s, Run (Proposals.step crypto authHeader) anyStep ⟨.empty, []⟩ ls s →
        s.membership.donMembers ≠ [] →
          ∃ w, .ensureFreshEnclaves w ∈ ls ∧ AttestedIn s.membership w) ∧
      ∀ donMembers donF config, validateEnclaveSigners donMembers donF config = .ok () ↔
        donMembers ≠ [] ∧ config.signers.data.Perm donMembers ∧ donF ≤ config.f := by
  intro state
  refine ⟨attested_of_refreshAll rfl ws, fun ls s run => (attested_of_run run).recorded, ?_⟩
  exact fun _ _ _ => validateEnclaveSigners_ok_iff

end

namespace Sample

def soleConfig : EnclaveConfig := ⟨one (signer 1), ∅, 1, 0⟩

/-- The registry reports that DON, and its enclave runs with it. -/
def registryUp : RefreshWorld where
  localNode := .ok ⟨none, ⟨1, one (key 1), 0⟩⟩
  nodeByPeerID _ := .error []
  configForCapability _ := .ok (.ok ∅)
  updateNodes _ := .ok ()
  vaultInfo := .ok none
  proposal := answering [soleConfig]

end Sample

example : (refreshAll Sample.crypto none ⟨∅, 1, .empty⟩ [Sample.registryUp]).membership.donMembers =
    [Sample.signer 1] := by
  decide +kernel

end ConfidentialCompute
