import ConfidentialCompute.Enclave.Server

/-!
# What one step of the enclave server can do

One inversion for each kind of step, so that no invariant has to take the handlers apart
again. `CallEffect` lists what a `/requests` goroutine does to the state. `ExecEffect` says
what a step of the server is to the goroutines and their caches, and `ConfigEffect` what it
is to the configuration and the votes on it.
-/

namespace ConfidentialCompute

open Go Runs

/-! ## Stages of a goroutine -/

namespace ExecPC

/-- The goroutine is about to look whether its hash is in progress. -/
def isChecking : ExecPC → Bool
  | .checkInProgress => true
  | _ => false

/-- The goroutine has found its hash not in progress and not marked it yet. -/
def isMarking : ExecPC → Bool
  | .markInProgress => true
  | _ => false

/-- The goroutine has put its mark and not taken it back yet. -/
def isMarked : ExecPC → Bool
  | .checkInProgress | .markInProgress | .done _ => false
  | _ => true

/-- The goroutine has passed the replay check and has no reply yet. -/
def isCleared : ExecPC → Bool
  | .getKeyPair | .combineShares _ | .running _ | .attesting _ | .markExecuted _ => true
  | _ => false

/-- The goroutine has found its keypair and has no reply yet. -/
def isKeyed : ExecPC → Bool
  | .combineShares _ | .running _ | .attesting _ | .markExecuted _ => true
  | _ => false

/-- The goroutine is inside `app.Execute`. -/
def isRunning : ExecPC → Bool
  | .running _ => true
  | _ => false

/-- The reply of the goroutine is a success response. -/
def isSucceeded : ExecPC → Bool
  | .unmark (.success _) | .done (.success _) => true
  | _ => false

/-- The goroutine is about to record its execution. -/
def isRecording : ExecPC → Bool
  | .markExecuted _ => true
  | _ => false

/-- The app has not returned to the goroutine yet. -/
def isEarly : ExecPC → Bool
  | .checkInProgress | .markInProgress | .checkExecuted | .getKeyPair | .combineShares _
  | .running _ => true
  | _ => false

def isDone : ExecPC → Bool
  | .done _ => true
  | _ => false

variable {pc : ExecPC}

theorem isCleared_of_isKeyed (keyed : pc.isKeyed) : pc.isCleared := by
  cases pc <;> first | rfl | cases keyed

theorem isMarked_of_isCleared (cleared : pc.isCleared) : pc.isMarked := by
  cases pc <;> first | rfl | cases cleared

theorem isKeyed_of_isRunning (running : pc.isRunning) : pc.isKeyed := by
  cases pc <;> first | rfl | cases running

theorem not_isSucceeded_of_isCleared (cleared : pc.isCleared) : pc.isSucceeded = false := by
  cases pc <;> first | rfl | cases cleared

theorem not_isDone_of_isCleared (cleared : pc.isCleared) : pc.isDone = false := by
  cases pc <;> first | rfl | cases cleared

theorem isSucceeded_of_done {reply : ExecuteReply} (succeeded : (done reply).isSucceeded) :
    (unmark reply).isSucceeded := by
  cases reply with
  | success resp => rfl
  | error status message => cases succeeded
  | aborted => cases succeeded

end ExecPC

/-- The goroutine that takes the step. -/
def EnclaveServer.caller (s : EnclaveServer) (l : EnclaveLabel) : Option ExecCall :=
  match l.action with
  | .call id _ => s.calls.lookup id
  | _ => none

theorem EnclaveServer.caller_eq {s : EnclaveServer} {l : EnclaveLabel} {id : Nat}
    {input : CallInput} (action : l.action = .call id input) :
    s.caller l = s.calls.lookup id := by
  unfold EnclaveServer.caller
  rw [action]

/-! ## Steps of a goroutine -/

/-- Moves of a goroutine that write no shared state. -/
inductive LocalMove (s : EnclaveServer) (now : Int) (call : ExecCall) : ExecPC → Prop
  | busy {reply : ExecuteReply} :
    call.pc = .checkInProgress → s.inProgressReqs.get now call.hash ≠ none →
    ¬ reply.IsSuccess → LocalMove s now call (.done reply)
  | notBusy :
    call.pc = .checkInProgress → s.inProgressReqs.get now call.hash = none →
    LocalMove s now call .markInProgress
  | replay {reply : ExecuteReply} :
    call.pc = .checkExecuted → s.executedReqs.get now call.hash ≠ none →
    ¬ reply.IsSuccess → LocalMove s now call (.unmark reply)
  | notReplay :
    call.pc = .checkExecuted → s.executedReqs.get now call.hash = none →
    LocalMove s now call .getKeyPair
  | keyFound {kp : BoxKeypair} :
    call.pc = .getKeyPair →
    s.keychain.getKeyPair now call.req.enclaveEphemeralPublicKey = .ok kp →
    LocalMove s now call (.combineShares kp)
  | combined {kp : BoxKeypair} {secrets : Secrets} :
    call.pc = .combineShares kp → LocalMove s now call (.running secrets)
  | failed {reply : ExecuteReply} :
    call.pc.isCleared → ¬ reply.IsSuccess → LocalMove s now call (.unmark reply)

/-- Everything a step of a goroutine can do to the state. -/
inductive CallEffect (s : EnclaveServer) (now : Int) (id : Nat) (call : ExecCall) :
    EnclaveServer → Prop
  | localMove {pc : ExecPC} :
    LocalMove s now call pc → CallEffect s now id call (s.setCall id { call with pc := pc })
  | markInProgress :
    call.pc = .markInProgress →
    CallEffect s now id call
      ({ s with inProgressReqs := s.inProgressReqs.set now call.hash () none }.setCall id
        { call with pc := .checkExecuted })
  | appReturned {secrets : Secrets} {output : Slice UInt8} :
    call.pc = .running secrets →
    CallEffect s now id call
      (s.setCall id { call with pc := .attesting output, output := some output })
  | attested {output : Slice UInt8} {pc : ExecPC} :
    call.pc = .attesting output →
    ((∃ resp, pc = .markExecuted resp) ∨ ∃ reply : ExecuteReply, ¬ reply.IsSuccess ∧
      pc = .unmark reply) →
    CallEffect s now id call
      ((s.attest (.execute (EnclaveServer.responseTo call output) call.req.version)).setCall id
        { call with pc := pc })
  | markExecuted {resp : ExecuteResponse} :
    call.pc = .markExecuted resp →
    CallEffect s now id call
      ({ s with executedReqs := s.executedReqs.set now call.hash () none }.setCall id
        { call with pc := .unmark (.success resp) })
  | unmark {reply : ExecuteReply} :
    call.pc = .unmark reply →
    CallEffect s now id call
      ({ s with inProgressReqs := s.inProgressReqs.delete call.hash }.setCall id
        { call with pc := .done reply })

theorem ExecuteReply.not_isSuccess_error {status : Nat} {message : String} :
    ¬ (ExecuteReply.error status message).IsSuccess := by
  rintro ⟨resp, eq⟩
  cases eq

theorem ExecuteReply.not_isSuccess_aborted : ¬ ExecuteReply.aborted.IsSuccess := by
  rintro ⟨resp, eq⟩
  cases eq

theorem ExecPC.not_isSucceeded_of_failed {reply : ExecuteReply} (failed : ¬ reply.IsSuccess) :
    ¬ (ExecPC.unmark reply).isSucceeded ∧ ¬ (ExecPC.done reply).isSucceeded := by
  cases reply with
  | success resp => exact (failed ⟨resp, rfl⟩).elim
  | error status message => exact ⟨nofun, nofun⟩
  | aborted => exact ⟨nofun, nofun⟩

theorem checkFields_not_isSuccess {req : ComputeRequest} {reply : ExecuteReply}
    (found : checkFields req = some reply) : ¬ reply.IsSuccess := by
  unfold checkFields at found
  split at found
  · cases found
    exact ExecuteReply.not_isSuccess_error
  · split at found
    · cases found
      exact ExecuteReply.not_isSuccess_error
    · split at found
      · cases found
        exact ExecuteReply.not_isSuccess_error
      · cases found

namespace EnclaveServer

variable {p : Platform} {s s' : EnclaveServer} {now : Int} {id : Nat} {call : ExecCall}

theorem lookupKeyPair_move (pc : call.pc = .getKeyPair) :
    LocalMove s now call (s.lookupKeyPair now call) := by
  have cleared : call.pc.isCleared := by rw [pc]; rfl
  unfold lookupKeyPair
  split
  · rename_i found
    exact .failed cleared (checkFields_not_isSuccess found)
  · split
    · exact .failed cleared ExecuteReply.not_isSuccess_error
    · rename_i found
      exact .keyFound pc found

theorem combine_move {kp : BoxKeypair} (pc : call.pc = .combineShares kp) :
    LocalMove s now call (combine p now call kp) := by
  have cleared : call.pc.isCleared := by rw [pc]; rfl
  unfold combine
  split
  · exact .failed cleared ExecuteReply.not_isSuccess_aborted
  · exact .failed cleared ExecuteReply.not_isSuccess_error
  · exact .combined pc

/-- **Inversion of a goroutine's step.** -/
theorem callStep_effect {input : CallInput} (taken : s.callStep p now id call input = some s') :
    CallEffect s now id call s' := by
  unfold callStep at taken
  split at taken
  · rename_i pc
    split at taken
    · rename_i present
      cases taken
      exact .localMove (.busy pc (Option.isSome_iff_ne_none.mp present)
        ExecuteReply.not_isSuccess_error)
    · rename_i missing
      cases taken
      exact .localMove (.notBusy pc (by simpa using missing))
  · rename_i pc
    cases taken
    exact .markInProgress pc
  · rename_i pc
    split at taken
    · rename_i present
      cases taken
      exact .localMove (.replay pc (Option.isSome_iff_ne_none.mp present)
        ExecuteReply.not_isSuccess_error)
    · rename_i missing
      cases taken
      exact .localMove (.notReplay pc (by simpa using missing))
  · rename_i pc
    cases taken
    exact .localMove (lookupKeyPair_move pc)
  · rename_i kp pc
    cases taken
    exact .localMove (combine_move pc)
  · rename_i pc
    cases taken
    exact .localMove (.failed (by rw [pc]; rfl) ExecuteReply.not_isSuccess_aborted)
  · rename_i pc
    cases taken
    exact .localMove (.failed (by rw [pc]; rfl) ExecuteReply.not_isSuccess_error)
  · rename_i pc
    cases taken
    exact .appReturned pc
  · rename_i pc
    cases taken
    exact .localMove (.failed (by rw [pc]; rfl) ExecuteReply.not_isSuccess_error)
  · rename_i pc
    dsimp only at taken
    split at taken
    · cases taken
      exact .attested pc (Or.inl ⟨_, rfl⟩)
    · cases taken
      exact .attested pc (Or.inr ⟨_, ExecuteReply.not_isSuccess_error, rfl⟩)
  · rename_i pc
    cases taken
    exact .markExecuted pc
  · rename_i pc
    cases taken
    exact .unmark pc
  · cases taken

/-- A request that arrives is answered at once, or becomes a goroutine whose batch the
configuration in force admits. -/
theorem arrive_effect {crypto : Crypto} (id : Nat) (method : HttpMethod) (body : RequestBody) :
    (s.arrive crypto id method body).1 = s ∨
      ∃ req rest, body = .batch (req :: rest) ∧
        Admitted crypto s.config (req :: rest) (req.hash crypto) ∧
        (s.arrive crypto id method body).1 =
          s.setCall id ⟨s.config, req, rest, req.hash crypto, .checkInProgress, none⟩ := by
  unfold arrive
  split
  · exact Or.inl rfl
  · split
    · exact Or.inl rfl
    · exact Or.inl rfl
    · exact Or.inl rfl
    · rename_i req rest
      split
      · exact Or.inl rfl
      · exact Or.inl rfl
      · rename_i hash ok
        obtain ⟨rfl, admitted⟩ := admitBatch_ok ok
        exact Or.inr ⟨req, rest, rfl, admitted, rfl⟩

end EnclaveServer

/-! ## Steps on the execution side -/

/-- Nothing that serving requests reads or writes has changed, and no response to a
request has been attested. -/
structure SameExecution (s s' : EnclaveServer) : Prop where
  calls : s'.calls = s.calls
  inProgressReqs : s'.inProgressReqs = s.inProgressReqs
  executedReqs : s'.executedReqs = s.executedReqs
  keychain : s'.keychain = s.keychain
  clock : s'.clock = s.clock
  attested : ∀ resp version,
    Attested.execute resp version ∈ s'.attested → .execute resp version ∈ s.attested

theorem SameExecution.refl {s : EnclaveServer} : SameExecution s s :=
  ⟨rfl, rfl, rfl, rfl, rfl, fun _ _ => id⟩

theorem SameExecution.trans {s₁ s₂ s₃ : EnclaveServer} (first : SameExecution s₁ s₂)
    (second : SameExecution s₂ s₃) : SameExecution s₁ s₃ where
  calls := second.calls.trans first.calls
  inProgressReqs := second.inProgressReqs.trans first.inProgressReqs
  executedReqs := second.executedReqs.trans first.executedReqs
  keychain := second.keychain.trans first.keychain
  clock := second.clock.trans first.clock
  attested resp version member := first.attested resp version (second.attested _ _ member)

/-- Everything an action can do to the part of the state that serving requests uses. -/
inductive ExecEffect (crypto : Crypto) (s : EnclaveServer) (now : Int) :
    EnclaveAction → EnclaveServer → Prop
  | same {a : EnclaveAction} {s' : EnclaveServer} :
    SameExecution s s' → ExecEffect crypto s now a s'
  | admitted {id : Nat} {method : HttpMethod} {req : SignedComputeRequest}
    {rest : List SignedComputeRequest} :
    s.calls.lookup id = none → Admitted crypto s.config (req :: rest) (req.hash crypto) →
    ExecEffect crypto s now (.arrive id method (.batch (req :: rest)))
      (s.setCall id ⟨s.config, req, rest, req.hash crypto, .checkInProgress, none⟩)
  | call {id : Nat} {input : CallInput} {call : ExecCall} {s' : EnclaveServer} :
    s.calls.lookup id = some call → CallEffect s now id call s' →
    ExecEffect crypto s now (.call id input) s'
  | keyPair {generatedAt : Int} {publicKey privateKey : Bytes32} :
    ExecEffect crypto s now (.createKeyPair generatedAt publicKey privateKey)
      { s with keychain := s.keychain.createKeyPair generatedAt now publicKey privateKey }
  | collectInProgress :
    ExecEffect crypto s now .collectInProgress
      { s with inProgressReqs := (s.inProgressReqs.garbageCollect now).1 }
  | collectExecuted :
    ExecEffect crypto s now .collectExecuted
      { s with executedReqs := (s.executedReqs.garbageCollect now).1 }
  | collectKeypairs :
    ExecEffect crypto s now .collectKeypairs
      { s with keychain := { s.keychain with
        keypairCache := (s.keychain.keypairCache.garbageCollect now).1 } }

namespace EnclaveServer

variable {p : Platform} {crypto : Crypto} {s s' : EnclaveServer} {now : Int}

theorem sameExecution_notifyApp {config : EnclaveConfig} :
    SameExecution s (s.notifyApp config) := by
  unfold notifyApp
  split <;> exact ⟨rfl, rfl, rfl, rfl, rfl, fun _ _ => id⟩

theorem sameExecution_applyConfig (newConfig : EnclaveConfig) :
    SameExecution s (s.applyConfig newConfig) := by
  have stored : SameExecution s
      { s with config := newConfig, pendingConfigVotes := s.pendingConfigVotes.flush } :=
    ⟨rfl, rfl, rfl, rfl, rfl, fun _ _ => id⟩
  exact stored.trans sameExecution_notifyApp

/-- Attesting anything but a response to a request is invisible to requests. -/
theorem sameExecution_attest {a : Attested} (other : ∀ resp version, a ≠ .execute resp version) :
    SameExecution s (s.attest a) := by
  refine ⟨rfl, rfl, rfl, rfl, rfl, fun resp version member => ?_⟩
  rcases List.mem_append.mp member with old | new
  · exact old
  · exact (other resp version (List.mem_singleton.mp new).symm).elim

end EnclaveServer

/-! ## Steps on the configuration side -/

/-- Nothing that the configuration handlers read or write has changed. -/
structure SameConfig (s s' : EnclaveServer) : Prop where
  config : s'.config = s.config
  configSet : s'.configSet = s.configSet
  allowReconfig : s'.allowReconfig = s.allowReconfig
  pendingConfigVotes : s'.pendingConfigVotes = s.pendingConfigVotes

theorem SameConfig.refl {s : EnclaveServer} : SameConfig s s := ⟨rfl, rfl, rfl, rfl⟩

theorem SameConfig.trans {s₁ s₂ s₃ : EnclaveServer} (first : SameConfig s₁ s₂)
    (second : SameConfig s₂ s₃) : SameConfig s₁ s₃ where
  config := second.config.trans first.config
  configSet := second.configSet.trans first.configSet
  allowReconfig := second.allowReconfig.trans first.allowReconfig
  pendingConfigVotes := second.pendingConfigVotes.trans first.pendingConfigVotes

/-- The PATCH request is a vote that the server counts. -/
structure ValidVote (crypto : Crypto) (s : EnclaveServer) (newConfig : EnclaveConfig)
    (signature signer : Slice UInt8) : Prop where
  configSet : s.configSet = true
  verified : verifySignature crypto (configUpdatePayload crypto (newConfig.hash crypto))
    signature s.config.signers = .ok signer
  changes : newConfig.hash crypto ≠ s.config.hash crypto

/-- Everything an action can do to the part of the state that configurations are in. -/
inductive ConfigEffect (crypto : Crypto) (s : EnclaveServer) (now : Int) :
    EnclaveAction → EnclaveServer → Prop
  | same {a : EnclaveAction} {s' : EnclaveServer} :
    SameConfig s s' → ConfigEffect crypto s now a s'
  | posted {method : HttpMethod} {newConfig : EnclaveConfig} {signature : Slice UInt8}
    {attestor : AttestorReply} {s' : EnclaveServer} :
    (s.configSet = true → s.allowReconfig = true) →
    SameConfig { s with config := newConfig, configSet := true } s' →
    ConfigEffect crypto s now (.setConfig method (.config newConfig signature) attestor) s'
  | voted {newConfig : EnclaveConfig} {signature signer : Slice UInt8}
    {attestor : AttestorReply} {s' : EnclaveServer} :
    ValidVote crypto s newConfig signature signer →
    (s.votesWith crypto now (newConfig.hash crypto) signer).card < s.config.f.toNat + 1 →
    SameConfig (s.recordVote crypto now (newConfig.hash crypto) signer) s' →
    ConfigEffect crypto s now (.updateConfig (.config newConfig signature) attestor) s'
  | applied {newConfig : EnclaveConfig} {signature signer : Slice UInt8}
    {attestor : AttestorReply} {s' : EnclaveServer} :
    ValidVote crypto s newConfig signature signer →
    s.config.f.toNat + 1 ≤ (s.votesWith crypto now (newConfig.hash crypto) signer).card →
    SameConfig { s with
      config := newConfig
      pendingConfigVotes :=
        (s.recordVote crypto now (newConfig.hash crypto) signer).pendingConfigVotes.flush } s' →
    ConfigEffect crypto s now (.updateConfig (.config newConfig signature) attestor) s'
  | collected {s' : EnclaveServer} :
    SameConfig { s with pendingConfigVotes := (s.pendingConfigVotes.garbageCollect now).1 } s' →
    ConfigEffect crypto s now .collectVotes s'

namespace EnclaveServer

variable {p : Platform} {crypto : Crypto} {s s' : EnclaveServer} {now : Int}
  {a : EnclaveAction} {l : EnclaveLabel} {body : ConfigBody} {attestor : AttestorReply}

theorem sameConfig_notifyApp {config : EnclaveConfig} : SameConfig s (s.notifyApp config) := by
  unfold notifyApp
  split <;> exact ⟨rfl, rfl, rfl, rfl⟩

theorem sameConfig_attest {a : Attested} : SameConfig s (s.attest a) := ⟨rfl, rfl, rfl, rfl⟩

theorem handleSetConfig_exec {method : HttpMethod} :
    SameExecution s (s.handleSetConfig method body attestor).1 := by
  unfold handleSetConfig
  split
  · exact .refl
  · split
    · exact .refl
    · split
      · exact .refl
      · exact .refl
      · exact .refl
      · rename_i newConfig _
        have stored : SameExecution s { s with config := newConfig, configSet := true } :=
          ⟨rfl, rfl, rfl, rfl, rfl, fun _ _ => id⟩
        dsimp only
        split
        · exact stored.trans sameExecution_notifyApp
        · exact (stored.trans sameExecution_notifyApp).trans (sameExecution_attest (by simp))

/-- A POST request stores its configuration, if none is set or reconfiguration is allowed. -/
theorem handleSetConfig_config {method : HttpMethod} :
    ConfigEffect crypto s now (.setConfig method body attestor)
      (s.handleSetConfig method body attestor).1 := by
  unfold handleSetConfig
  split
  · exact .same .refl
  · split
    · exact .same .refl
    · rename_i unlocked
      have allowed : s.configSet = true → s.allowReconfig = true := by
        intro isSet
        by_contra locked
        exact unlocked ⟨isSet, locked⟩
      split
      · exact .same .refl
      · exact .same .refl
      · exact .same .refl
      · dsimp only
        split
        · exact .posted allowed sameConfig_notifyApp
        · exact .posted allowed (sameConfig_notifyApp.trans sameConfig_attest)

theorem handleUpdateConfig_exec :
    SameExecution s (handleUpdateConfig crypto s now body attestor).1 := by
  unfold handleUpdateConfig
  split
  · exact .refl
  · split
    · exact .refl
    · exact .refl
    · exact .refl
    · rename_i newConfig signature
      dsimp only
      split
      · exact .refl
      · exact .refl
      · rename_i signer _
        split
        · split
          · exact .refl
          · exact sameExecution_attest (by simp)
        · have stored : SameExecution s (s.recordVote crypto now (newConfig.hash crypto) signer) :=
            ⟨rfl, rfl, rfl, rfl, rfl, fun _ _ => id⟩
          have applied := stored.trans (sameExecution_applyConfig newConfig)
          split
          · exact stored
          · split
            · exact applied
            · exact applied.trans (sameExecution_attest (by simp))

/-- **Inversion of a PATCH request.** -/
theorem handleUpdateConfig_config :
    ConfigEffect crypto s now (.updateConfig body attestor)
      (handleUpdateConfig crypto s now body attestor).1 := by
  unfold handleUpdateConfig
  split
  · exact .same .refl
  · rename_i isSet
    split
    · exact .same .refl
    · exact .same .refl
    · exact .same .refl
    · rename_i newConfig signature
      dsimp only
      split
      · exact .same .refl
      · exact .same .refl
      · rename_i signer verified
        split
        · split
          · exact .same .refl
          · exact .same sameConfig_attest
        · rename_i changes
          have vote : ValidVote crypto s newConfig signature signer :=
            ⟨by simpa using isSet, verified, changes⟩
          have applied : SameConfig { s with
              config := newConfig
              pendingConfigVotes := (s.recordVote crypto now
                (newConfig.hash crypto) signer).pendingConfigVotes.flush }
              ((s.recordVote crypto now (newConfig.hash crypto) signer).applyConfig newConfig) :=
            .trans ⟨rfl, rfl, rfl, rfl⟩ sameConfig_notifyApp
          split
          · rename_i few
            exact .voted vote few .refl
          · rename_i enough
            have quorum : s.config.f.toNat + 1 ≤
                (s.votesWith crypto now (newConfig.hash crypto) signer).card := by omega
            split
            · exact .applied vote quorum applied
            · exact .applied vote quorum (applied.trans sameConfig_attest)

/-! ## The two sides of a step -/

theorem callEffect_config {id : Nat} {call : ExecCall} (effect : CallEffect s now id call s') :
    SameConfig s s' := by
  cases effect <;> exact ⟨rfl, rfl, rfl, rfl⟩

/-- **Inversion of an action, execution side.** -/
theorem act_exec (taken : s.act p now a = some s') :
    ExecEffect p.toCrypto s now a s' := by
  cases a with
  | setConfig method body attestor =>
      cases taken
      exact .same handleSetConfig_exec
  | updateConfig body attestor =>
      cases taken
      exact .same handleUpdateConfig_exec
  | arrive id method body =>
      simp only [act] at taken
      split at taken
      · cases taken
      · rename_i unused
        cases taken
        rcases arrive_effect id method body with same | ⟨req, rest, rfl, admitted, stored⟩
        · rw [same]
          exact .same .refl
        · rw [stored]
          exact .admitted unused admitted
  | call id input =>
      simp only [act] at taken
      split at taken
      · cases taken
      · rename_i found
        exact .call found (callStep_effect taken)
  | createKeyPair generatedAt publicKey privateKey =>
      simp only [act] at taken
      split at taken
      · cases taken
        exact .keyPair
      · cases taken
  | collectVotes =>
      cases taken
      exact .same ⟨rfl, rfl, rfl, rfl, rfl, fun _ _ => id⟩
  | collectInProgress =>
      cases taken
      exact .collectInProgress
  | collectExecuted =>
      cases taken
      exact .collectExecuted
  | collectKeypairs =>
      cases taken
      exact .collectKeypairs
  | attestPublicKeys resp =>
      cases taken
      exact .same (sameExecution_attest (by simp))
  | attestGateway body =>
      cases taken
      exact .same (sameExecution_attest (by simp))
  | attestRelay domainTag data =>
      cases taken
      exact .same (sameExecution_attest (by simp))

theorem execEffect_clock (effect : ExecEffect crypto s now a s') :
    s'.clock = s.clock := by
  cases effect with
  | same same => exact same.clock
  | call _ effect => cases effect <;> rfl
  | admitted _ _ | keyPair | collectInProgress | collectExecuted | collectKeypairs => rfl

/-- **Inversion of an action, configuration side.** -/
theorem act_config (taken : s.act p now a = some s') :
    ConfigEffect p.toCrypto s now a s' := by
  cases a with
  | setConfig method body attestor =>
      cases taken
      exact handleSetConfig_config
  | updateConfig body attestor =>
      cases taken
      exact handleUpdateConfig_config
  | collectVotes =>
      cases taken
      exact .collected .refl
  | arrive id method body =>
      simp only [act] at taken
      split at taken
      · cases taken
      · cases taken
        rcases arrive_effect id method body with same | ⟨req, rest, rfl, _, stored⟩
        · rw [same]
          exact .same .refl
        · rw [stored]
          exact .same ⟨rfl, rfl, rfl, rfl⟩
  | call id input =>
      simp only [act] at taken
      split at taken
      · cases taken
      · exact .same (callEffect_config (callStep_effect taken))
  | createKeyPair generatedAt publicKey privateKey =>
      simp only [act] at taken
      split at taken
      · cases taken
        exact .same ⟨rfl, rfl, rfl, rfl⟩
      · cases taken
  | collectInProgress | collectExecuted | collectKeypairs | attestPublicKeys resp
  | attestGateway body | attestRelay domainTag data =>
      cases taken
      exact .same ⟨rfl, rfl, rfl, rfl⟩

/-- A step reads the clock, which does not go back, and acts. -/
theorem step_eq_some (taken : s.step p l = some s') :
    s.clock ≤ l.now ∧ { s with clock := l.now }.act p l.now l.action = some s' := by
  unfold step at taken
  split at taken
  · rename_i le
    exact ⟨le, taken⟩
  · cases taken

theorem step_clock (taken : s.step p l = some s') : s'.clock = l.now :=
  execEffect_clock (act_exec (step_eq_some taken).2)

/-- **Rule for the goroutines.** What holds of every goroutine that arrives, and is kept by
every step of a goroutine, holds of all of them. -/
theorem step_calls {P : ExecCall → Prop}
    (arrived : ∀ config req rest,
      Admitted p.toCrypto config (req :: rest) (req.hash p.toCrypto) →
        P ⟨config, req, rest, req.hash p.toCrypto, .checkInProgress, none⟩)
    (moved : ∀ (s s' : EnclaveServer) id call input, P call →
      s.callStep p l.now id call input = some s' →
        ∃ call', s'.calls = s.calls.insert id call' ∧ P call')
    (all : ∀ id call, s.calls.lookup id = some call → P call) (taken : s.step p l = some s') :
    ∀ id call, s'.calls.lookup id = some call → P call := by
  obtain ⟨_, acted⟩ := step_eq_some taken
  have effect := act_exec acted
  generalize l.action = a at effect acted
  cases effect with
  | same same =>
      rw [same.calls]
      exact all
  | admitted unused admitted => exact forall_lookup_insert all (arrived _ _ _ admitted)
  | @call id input call s' found effect =>
      simp only [act] at acted
      rw [found] at acted
      obtain ⟨call', calls, holds⟩ := moved _ _ _ _ _ (all id call found) acted
      rw [calls]
      exact forall_lookup_insert all holds
  | keyPair | collectInProgress | collectExecuted | collectKeypairs => exact all

/-- **Inversion of a step, configuration side.** The clock plays no part on this side. -/
theorem step_config (taken : s.step p l = some s') :
    ConfigEffect p.toCrypto s l.now l.action s' := by
  have effect := act_config (step_eq_some taken).2
  generalize l.action = a at effect ⊢
  cases effect with
  | same same => exact .same ⟨same.1, same.2, same.3, same.4⟩
  | posted allowed same => exact .posted allowed ⟨same.1, same.2, same.3, same.4⟩
  | voted valid few same =>
      exact .voted ⟨valid.1, valid.2, valid.3⟩ few ⟨same.1, same.2, same.3, same.4⟩
  | applied valid enough same =>
      exact .applied ⟨valid.1, valid.2, valid.3⟩ enough ⟨same.1, same.2, same.3, same.4⟩
  | collected same => exact .collected ⟨same.1, same.2, same.3, same.4⟩

end EnclaveServer

end ConfidentialCompute
