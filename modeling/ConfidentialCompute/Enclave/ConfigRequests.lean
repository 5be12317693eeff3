import ConfidentialCompute.Enclave.Steps
import ConfidentialCompute.Sample

/-!
# What a configuration request leaves behind

Both handlers of `/config` install a configuration first and have it attested afterwards. If
the attestor then fails, the client is told that the request failed, and the configuration
stays installed, delivered to the app, and, after a vote, with all pending votes dropped.
-/

namespace ConfidentialCompute

open Go

/-! ## Requests and answers -/

inductive ConfigRequest where
  | set (method : HttpMethod) (body : ConfigBody)
  | update (body : ConfigBody)

/-- The status of an answer; after a panic there is none. -/
def ConfigReply.status : ConfigReply → Option Nat
  | .error status _ => some status
  | .set _ => some statusOK
  | .update status _ => some status
  | .aborted => none

/-- The status is neither 200 nor 202. -/
def ConfigReply.Failed (reply : ConfigReply) : Prop :=
  reply.status ≠ some statusOK ∧ reply.status ≠ some statusAccepted

instance (reply : ConfigReply) : Decidable reply.Failed := inferInstanceAs (Decidable (_ ∧ _))

theorem ConfigReply.failed_error {status : Nat} {message : String} (notOK : status ≠ statusOK)
    (notAccepted : status ≠ statusAccepted) : (ConfigReply.error status message).Failed :=
  ⟨fun same => notOK (Option.some.inj same), fun same => notAccepted (Option.some.inj same)⟩

theorem ConfigReply.failed_aborted : ConfigReply.aborted.Failed := by decide

namespace EnclaveServer

def handleConfig (crypto : Crypto) (s : EnclaveServer) (now : Int) (attestor : AttestorReply) :
    ConfigRequest → EnclaveServer × ConfigReply
  | .set method body => s.handleSetConfig method body attestor
  | .update body => handleUpdateConfig crypto s now body attestor

/-- The request makes the server install `newConfig`, whatever the attestor says: a POST
request that is not locked out, or a vote that completes a quorum. -/
inductive Applies (crypto : Crypto) (s : EnclaveServer) (now : Int) :
    ConfigRequest → EnclaveConfig → Prop
  | set {newConfig : EnclaveConfig} {signature : Slice UInt8} :
    (s.configSet = true → s.allowReconfig = true) →
    Applies crypto s now (.set .post (.config newConfig signature)) newConfig
  | update {newConfig : EnclaveConfig} {signature signer : Slice UInt8} :
    ValidVote crypto s newConfig signature signer →
    s.config.f.toNat + 1 ≤ (s.votesWith crypto now (newConfig.hash crypto) signer).card →
    Applies crypto s now (.update (.config newConfig signature)) newConfig

/-- What an installation does to the state. -/
structure Installs (s s' : EnclaveServer) (request : ConfigRequest) (newConfig : EnclaveConfig) :
    Prop where
  config : s'.config = newConfig
  configSet : s'.configSet = true
  appConfig : s'.appConfig = if s.appConfigurable then some newConfig else s.appConfig
  votes : ∀ method body, request = .set method body →
    s'.pendingConfigVotes = s.pendingConfigVotes

/-- Everything a configuration request can do, with the answer to it. -/
inductive ConfigOutcome (crypto : Crypto) (s : EnclaveServer) (now : Int) :
    ConfigRequest → AttestorReply → EnclaveServer → ConfigReply → Prop
  | refused {request : ConfigRequest} {attestor : AttestorReply} {reply : ConfigReply} :
    (∀ newConfig, ¬ Applies crypto s now request newConfig) → reply.Failed →
    ConfigOutcome crypto s now request attestor s reply
  | current {body : ConfigBody} {att : Slice UInt8} {collected required : Nat} :
    (∀ newConfig, ¬ Applies crypto s now (.update body) newConfig) → s.configSet = true →
    ConfigOutcome crypto s now (.update body) (.ok att) (s.attest (.setConfig s.config))
      (.update statusOK ⟨true, s.config, collected, required, some att⟩)
  | voted {body : ConfigBody} {attestor : AttestorReply} {s' : EnclaveServer}
    {resp : UpdateConfigResponse} :
    (∀ newConfig, ¬ Applies crypto s now (.update body) newConfig) →
    s'.config = s.config → s'.configSet = s.configSet → resp.applied = false →
    ConfigOutcome crypto s now (.update body) attestor s' (.update statusAccepted resp)
  | set {method : HttpMethod} {body : ConfigBody} {newConfig : EnclaveConfig} {att : Slice UInt8}
    {s' : EnclaveServer} :
    Applies crypto s now (.set method body) newConfig →
    Installs s s' (.set method body) newConfig →
    ConfigOutcome crypto s now (.set method body) (.ok att) (s'.attest (.setConfig newConfig))
      (.set ⟨newConfig, att⟩)
  | updated {body : ConfigBody} {newConfig : EnclaveConfig} {att : Slice UInt8}
    {s' : EnclaveServer} {collected required : Nat} :
    Applies crypto s now (.update body) newConfig → Installs s s' (.update body) newConfig →
    ConfigOutcome crypto s now (.update body) (.ok att) (s'.attest (.setConfig newConfig))
      (.update statusOK ⟨true, newConfig, collected, required, some att⟩)
  | unattested {request : ConfigRequest} {newConfig : EnclaveConfig} {err message : String}
    {s' : EnclaveServer} :
    Applies crypto s now request newConfig → Installs s s' request newConfig →
    ConfigOutcome crypto s now request (.error err) s' (.error statusInternalServerError message)

section

variable {crypto : Crypto} {s s' : EnclaveServer} {now : Int} {request : ConfigRequest}
  {attestor : AttestorReply} {newConfig newConfig' : EnclaveConfig}

theorem Applies.unique (first : Applies crypto s now request newConfig)
    (second : Applies crypto s now request newConfig') : newConfig = newConfig' := by
  cases first <;> cases second <;> rfl

theorem appConfig_notifyApp :
    (s.notifyApp newConfig).appConfig =
      if s.appConfigurable then some newConfig else s.appConfig := by
  unfold notifyApp
  split <;> rfl

theorem installs_set {method : HttpMethod} {body : ConfigBody} :
    Installs s ({ s with config := newConfig, configSet := true }.notifyApp newConfig)
      (.set method body) newConfig := by
  have stored : SameConfig { s with config := newConfig, configSet := true }
      ({ s with config := newConfig, configSet := true }.notifyApp newConfig) :=
    sameConfig_notifyApp
  exact ⟨stored.config, stored.configSet, appConfig_notifyApp,
    fun _ _ _ => stored.pendingConfigVotes⟩

theorem installs_update {body : ConfigBody} {newHash : Bytes32} {signer : Slice UInt8}
    (isSet : s.configSet = true) :
    Installs s ((s.recordVote crypto now newHash signer).applyConfig newConfig)
      (.update body) newConfig := by
  unfold applyConfig
  refine ⟨sameConfig_notifyApp.config, sameConfig_notifyApp.configSet.trans isSet,
    appConfig_notifyApp, ?_⟩
  intro method body same
  cases same

/-- A request that installs nothing and is answered with an error. -/
theorem refused_error {status : Nat} {message : String}
    (idle : ∀ newConfig, ¬ Applies crypto s now request newConfig) (notOK : status ≠ statusOK)
    (notAccepted : status ≠ statusAccepted) :
    ConfigOutcome crypto s now request attestor s (.error status message) :=
  .refused idle (ConfigReply.failed_error notOK notAccepted)

theorem handleSetConfig_outcome {method : HttpMethod} {body : ConfigBody} :
    ConfigOutcome crypto s now (.set method body) attestor
      (s.handleSetConfig method body attestor).1 (s.handleSetConfig method body attestor).2 := by
  unfold handleSetConfig
  split
  · rename_i notPost
    refine refused_error (fun newConfig applies => ?_) (by decide) (by decide)
    cases applies
    exact notPost rfl
  · rename_i isPost
    have post : method = .post := by simpa using isPost
    subst post
    split
    · rename_i locked
      refine refused_error (fun newConfig applies => ?_) (by decide) (by decide)
      cases applies with
      | set allowed => exact locked.2 (allowed locked.1)
    · rename_i unlocked
      have allowed : s.configSet = true → s.allowReconfig = true := by
        intro isSet
        by_contra closed
        exact unlocked ⟨isSet, closed⟩
      split
      · refine refused_error (fun newConfig applies => ?_) (by decide) (by decide)
        cases applies
      · refine refused_error (fun newConfig applies => ?_) (by decide) (by decide)
        cases applies
      · refine refused_error (fun newConfig applies => ?_) (by decide) (by decide)
        cases applies
      · dsimp only
        split
        · exact .unattested (.set allowed) installs_set
        · exact .set (.set allowed) installs_set

theorem handleUpdateConfig_outcome {body : ConfigBody} :
    ConfigOutcome crypto s now (.update body) attestor
      (handleUpdateConfig crypto s now body attestor).1
      (handleUpdateConfig crypto s now body attestor).2 := by
  unfold handleUpdateConfig
  split
  · rename_i unset
    refine refused_error (fun newConfig applies => ?_) (by decide) (by decide)
    cases applies with
    | update vote _ => exact unset vote.configSet
  · rename_i notUnset
    have isSet : s.configSet = true := by simpa using notUnset
    split
    · refine refused_error (fun newConfig applies => ?_) (by decide) (by decide)
      cases applies
    · refine refused_error (fun newConfig applies => ?_) (by decide) (by decide)
      cases applies
    · refine refused_error (fun newConfig applies => ?_) (by decide) (by decide)
      cases applies
    · rename_i newConfig signature
      dsimp only
      split
      · rename_i panicked
        refine .refused (fun newConfig applies => ?_) ConfigReply.failed_aborted
        cases applies with
        | update vote _ => cases panicked.symm.trans vote.verified
      · rename_i err refused
        refine refused_error (fun newConfig applies => ?_) (by decide) (by decide)
        cases applies with
        | update vote _ => cases refused.symm.trans vote.verified
      · rename_i signer verified
        split
        · rename_i current
          have idle : ∀ newConfig', ¬ Applies crypto s now
              (.update (.config newConfig signature)) newConfig' := by
            intro newConfig' applies
            cases applies with
            | update vote _ => exact vote.changes current
          split
          · exact refused_error idle (by decide) (by decide)
          · exact .current idle isSet
        · rename_i changes
          split
          · rename_i few
            refine .voted (fun newConfig' applies => ?_) rfl rfl rfl
            cases applies with
            | update vote enough =>
                cases verified.symm.trans vote.verified
                omega
          · rename_i enough
            have applies : Applies crypto s now (.update (.config newConfig signature))
                newConfig := .update ⟨isSet, verified, changes⟩ (by omega)
            split
            · exact .unattested applies (installs_update isSet)
            · exact .updated applies (installs_update isSet)

/-- **Inversion of a configuration request**, with its answer. -/
theorem handleConfig_outcome :
    ConfigOutcome crypto s now request attestor (s.handleConfig crypto now attestor request).1
      (s.handleConfig crypto now attestor request).2 := by
  cases request with
  | set method body => exact handleSetConfig_outcome
  | update body => exact handleUpdateConfig_outcome

end

/-! ## Failed requests -/

/-- Configuration, votes and what the app was told are as before. -/
structure ConfigKept (s s' : EnclaveServer) : Prop where
  config : s'.config = s.config
  configSet : s'.configSet = s.configSet
  pendingConfigVotes : s'.pendingConfigVotes = s.pendingConfigVotes
  appConfig : s'.appConfig = s.appConfig

/-- The configuration is set already, and the app, if it listens, was told so last. -/
structure InForceAlready (s : EnclaveServer) (newConfig : EnclaveConfig) : Prop where
  configSet : s.configSet = true
  config : s.config = newConfig
  delivered : s.appConfigurable = true → s.appConfig = some newConfig

section

variable {crypto : Crypto} {s s' : EnclaveServer} {now : Int} {request : ConfigRequest}
  {newConfig : EnclaveConfig}

theorem Installs.inForce_of_kept (installs : Installs s s' request newConfig)
    (kept : ConfigKept s s') : InForceAlready s newConfig where
  configSet := kept.configSet.symm.trans installs.configSet
  config := kept.config.symm.trans installs.config
  delivered configurable := by
    have delivered := installs.appConfig
    rw [if_pos configurable] at delivered
    exact kept.appConfig.symm.trans delivered

/-- A vote never installs what is in force: its hash differs. -/
theorem Installs.kept_of_inForce (applies : Applies crypto s now request newConfig)
    (installs : Installs s s' request newConfig) (inForce : InForceAlready s newConfig) :
    ConfigKept s s' := by
  cases applies with
  | set allowed =>
      refine ⟨installs.config.trans inForce.config.symm,
        installs.configSet.trans inForce.configSet.symm, installs.votes _ _ rfl, ?_⟩
      rw [installs.appConfig]
      split
      · rename_i configurable
        exact (inForce.delivered configurable).symm
      · rfl
  | update vote enough =>
      exact absurd (congrArg (EnclaveConfig.hash crypto) inForce.config.symm) vote.changes

/-- **A failed request changes nothing** exactly when the attestor did not fail it after a
configuration was installed, or that configuration was in force already. -/
theorem failed_request (crypto : Crypto) (s : EnclaveServer) (now : Int)
    (request : ConfigRequest) (attestor : AttestorReply) :
    ((s.handleConfig crypto now attestor request).2.Failed →
        ConfigKept s (s.handleConfig crypto now attestor request).1) ↔
      ∀ newConfig err, Applies crypto s now request newConfig → attestor = .error err →
        InForceAlready s newConfig := by
  have outcome : ConfigOutcome crypto s now request attestor _ _ := handleConfig_outcome
  generalize s.handleConfig crypto now attestor request = after at outcome ⊢
  obtain ⟨s', reply⟩ := after
  cases outcome with
  | refused idle failed =>
      exact ⟨fun _ newConfig _ applies => absurd applies (idle newConfig),
        fun _ _ => ⟨rfl, rfl, rfl, rfl⟩⟩
  | current idle isSet =>
      exact ⟨fun _ newConfig _ applies => absurd applies (idle newConfig),
        fun _ failed => absurd rfl failed.1⟩
  | voted idle config configSet notApplied =>
      exact ⟨fun _ newConfig _ applies => absurd applies (idle newConfig),
        fun _ failed => absurd rfl failed.2⟩
  | set applies installs =>
      refine ⟨fun _ newConfig err _ failure => ?_, fun _ failed => absurd rfl failed.1⟩
      cases failure
  | updated applies installs =>
      refine ⟨fun _ newConfig err _ failure => ?_, fun _ failed => absurd rfl failed.1⟩
      cases failure
  | @unattested _ newConfig err message s' applies installs =>
      have failed : (ConfigReply.error statusInternalServerError message).Failed :=
        ConfigReply.failed_error (by decide) (by decide)
      constructor
      · intro kept newConfig' err' applies' _
        rw [← applies.unique applies']
        exact installs.inForce_of_kept (kept failed)
      · intro inForce _
        exact installs.kept_of_inForce applies (inForce newConfig err applies rfl)

/-- An enclave without a configuration answers its first POST request with 500, since the
attestor fails, and is configured. -/
theorem failed_request_installs :
    ((Sample.server 0).handleConfig Sample.crypto 0 (.error "unavailable")
        (.set .post (.config (Sample.config 1) ∅))).2.Failed ∧
      (Sample.server 0).config ≠ Sample.config 1 ∧
      ((Sample.server 0).handleConfig Sample.crypto 0 (.error "unavailable")
        (.set .post (.config (Sample.config 1) ∅))).1.config = Sample.config 1 := by
  refine ⟨?_, ?_, rfl⟩
  · exact ConfigReply.failed_error (by decide) (by decide)
  · decide

end

end EnclaveServer

end ConfidentialCompute
