import ConfidentialCompute.Host.Batches
import ConfidentialCompute.Host.ConfigSync

/-!
# The lengths of the signers' keys

`ed25519.Verify` panics on a key that is not 32 bytes long. Neither handler of `/config` looks
at the lengths of the keys it is given, the host adopts what the enclave has installed, and the
host's `handleExecute` releases `processRequestMutex` by hand: a key of another length makes
the check of a request panic, and the mutex stays locked for good.
-/

namespace ConfidentialCompute

open Go Runs Deployment

/-- `ed25519.Verify` accepts every key. -/
def EnclaveConfig.KeysWellFormed (config : EnclaveConfig) : Prop :=
  ∀ signer ∈ config.signers.data, signer.length = ed25519PublicKeySize

instance (config : EnclaveConfig) : Decidable config.KeysWellFormed :=
  inferInstanceAs (Decidable (∀ signer ∈ config.signers.data, _))

/-- No request body makes the check under the configuration panic. -/
def EnclaveConfig.ChecksInDomain (config : EnclaveConfig) (crypto : Crypto) : Prop :=
  ∀ hash signature, verifySignature crypto hash signature config.signers ≠ .panicked

theorem EnclaveConfig.KeysWellFormed.checksInDomain {config : EnclaveConfig} {crypto : Crypto}
    (wellFormed : config.KeysWellFormed) : config.ChecksInDomain crypto := by
  intro hash signature panics
  obtain ⟨_, tried, key, rest, split, malformed, _⟩ := verifySignature_panicked_iff.mp panics
  refine malformed (wellFormed key ?_)
  rw [split]
  exact List.mem_append_right _ List.mem_cons_self

/-- Every configuration that the enclave installs has well-formed keys. -/
def Deployment.InstallsWellFormed (p : Platform) (d : Deployment) : DeploymentLabel → Prop
  | .serve k now _ => ∀ request newConfig,
      d.exchanges[k]? = some (.forwarded (.config request)) →
        d.enclave.Applies p.toCrypto now request newConfig → newConfig.KeysWellFormed
  | _ => True

/-- All configurations have well-formed keys: those of both programs, those that goroutines of
the host have read, and those on their way to the host. The mutex is free. -/
structure KeysSafe (d : Deployment) : Prop where
  sound : d.host.Sound
  enclave : d.enclave.config.KeysWellFormed
  host : d.host.config.KeysWellFormed
  snapshots : ∀ config ∈ d.host.snapshots, config.KeysWellFormed
  answers : ∀ (k : Nat) answer epoch, d.exchanges[k]? = some (.answered answer epoch) →
    ∀ (host : HostServer) config, host.adopts answer = some config → config.KeysWellFormed
  unlocked : d.host.locked = false

section

variable {p : Platform} {flags : HostFlags} {d d' : Deployment} {l : DeploymentLabel}

/-- What the enclave has after a request, and what the host takes from the answer, is what the
enclave had before or what it installs. -/
theorem configs_handleConfig {crypto : Crypto} {s : EnclaveServer} {now : Int}
    {request : ConfigRequest} {attestor : AttestorReply} {P : EnclaveConfig → Prop}
    (before : P s.config)
    (installs : ∀ newConfig, s.Applies crypto now request newConfig → P newConfig) :
    P (s.handleConfig crypto now attestor request).1.config ∧
      ∀ (host : HostServer) config, host.adopts (request.answer
        (s.handleConfig crypto now attestor request).2) = some config → P config := by
  have outcome : EnclaveServer.ConfigOutcome crypto s now request attestor _ _ :=
    EnclaveServer.handleConfig_outcome
  generalize s.handleConfig crypto now attestor request = after at outcome ⊢
  obtain ⟨s', reply⟩ := after
  cases outcome with
  | refused _ failed =>
      refine ⟨before, fun host config adopted => ?_⟩
      rw [(adopts_answer_failed failed request host).1] at adopted
      cases adopted
  | current _ _ =>
      refine ⟨before, fun host config adopted => ?_⟩
      cases adopted
      exact before
  | @voted _ _ _ resp _ config _ notApplied =>
      refine ⟨config ▸ before, fun host taken adopted => ?_⟩
      simp [ConfigRequest.answer, ConfigReply.toUpdateConfig, HostServer.adopts,
        notApplied] at adopted
  | set applies stored =>
      have new := installs _ applies
      refine ⟨stored.config ▸ new, fun host config adopted => ?_⟩
      cases adopted
      exact new
  | updated applies stored =>
      have new := installs _ applies
      refine ⟨stored.config ▸ new, fun host config adopted => ?_⟩
      cases adopted
      exact new
  | @unattested _ newConfig err message _ applies stored =>
      have failed : (ConfigReply.error statusInternalServerError message).Failed :=
        ConfigReply.failed_error (by decide) (by decide)
      refine ⟨stored.config ▸ installs _ applies, fun host config adopted => ?_⟩
      rw [(adopts_answer_failed failed request host).1] at adopted
      cases adopted

/-- The same for the step of the enclave that handles the request. -/
theorem configs_of_step {s s' : EnclaveServer} {now : Int} {request : ConfigRequest}
    {attestor : AttestorReply} {P : EnclaveConfig → Prop} (before : P s.config)
    (installs : ∀ newConfig, s.Applies p.toCrypto now request newConfig → P newConfig)
    (taken : s.step p ⟨now, request.action attestor⟩ = some s') :
    P s'.config ∧ ∀ (host : HostServer) config, host.adopts (request.answer
      ({ s with clock := now }.handleConfig p.toCrypto now attestor request).2) = some config →
        P config := by
  have handled : s' = ({ s with clock := now }.handleConfig p.toCrypto now attestor request).1 := by
    have acts := (EnclaveServer.step_eq_some taken).2
    cases request <;> exact (Option.some.inj acts).symm
  rw [handled]
  refine configs_handleConfig before fun newConfig applies => installs newConfig ?_
  cases applies with
  | set allowed => exact .set allowed
  | update vote enough => exact .update ⟨vote.configSet, vote.verified, vote.changes⟩ enough

/-- A step of the host under well-formed keys leaves the mutex free. -/
theorem KeysSafe.unlocked_step {host : HostServer} {l : HostLabel} (inv : KeysSafe d)
    (taken : HostServer.step p.toCrypto flags d.host l = some host) : host.locked = false := by
  rcases HostServer.step_locked inv.sound.pending.pointersValid taken with
    same | ⟨i, call, _, isCall, fatal⟩
  · rw [same, inv.unlocked]
  · have among : call.config ∈ d.host.snapshots :=
      List.mem_map_of_mem (List.mem_of_getElem? isCall)
    have panics := verifySignature_panicked_iff.mpr fatal
    exact ((inv.snapshots _ among).checksInDomain _ _ panics).elim

/-- What goroutines of the host have read after a step. -/
theorem KeysSafe.snapshots_step {host : HostServer} {l : HostLabel} (inv : KeysSafe d)
    (taken : HostServer.step p.toCrypto flags d.host l = some host) :
    ∀ config ∈ host.snapshots, config.KeysWellFormed := by
  intro config among
  cases HostServer.step_configMove taken with
  | kept kept => exact inv.snapshots config (kept.snapshots ▸ among)
  | read _ _ snapshots =>
      rw [snapshots] at among
      rcases List.mem_append.mp among with old | new
      · exact inv.snapshots config old
      · rw [List.mem_singleton.mp new]
        exact inv.host
  | adopted _ snapshots => exact inv.snapshots config (snapshots ▸ among)

/-- An exchange that has moved on to a state whose answer, if any, is safe. -/
theorem KeysSafe.answers_set (inv : KeysSafe d) {k : Nat} {after : Exchange}
    (safe : ∀ answer epoch, after = .answered answer epoch →
      ∀ (host : HostServer) config, host.adopts answer = some config → config.KeysWellFormed) :
    ∀ (j : Nat) answer epoch, (d.exchanges.set k after)[j]? = some (.answered answer epoch) →
      ∀ (host : HostServer) config, host.adopts answer = some config →
        config.KeysWellFormed := by
  intro j answer epoch isAnswer
  rcases of_getElem?_set isAnswer with new | old
  · exact safe answer epoch new.symm
  · exact inv.answers j answer epoch old

theorem KeysSafe.step (inv : KeysSafe d) (installs : d.InstallsWellFormed p l)
    (taken : Deployment.step p flags d l = some d') : KeysSafe d' := by
  cases Deployment.moves_of_step taken with
  | forward request =>
      refine ⟨inv.sound, inv.enclave, inv.host, inv.snapshots, ?_, inv.unlocked⟩
      intro k answer epoch found
      rw [Heap.getElem?_alloc] at found
      split at found
      · cases found
      · exact inv.answers k answer epoch found
  | serve found served =>
      obtain ⟨config, answer⟩ := configs_of_step inv.enclave
        (fun newConfig => installs _ newConfig found) served
      refine ⟨inv.sound, config, inv.host, inv.snapshots, inv.answers_set ?_, inv.unlocked⟩
      intro _ _ same
      cases same
      exact answer
  | serveKeys result found =>
      refine ⟨inv.sound, inv.enclave, inv.host, inv.snapshots, inv.answers_set ?_, inv.unlocked⟩
      intro _ _ same host config adopted
      cases same
      rw [adopts_publicKeys adopted]
      exact inv.enclave
  | @receive k _ answer epoch host found received =>
      refine ⟨inv.sound.step received, inv.enclave, ?_, inv.snapshots_step received,
        inv.answers_set ?_, inv.unlocked_step received⟩
      · show host.config.KeysWellFormed
        rw [HostServer.config_step_answer received]
        cases adopted : d.host.adopts answer with
        | none => exact inv.host
        | some config => exact inv.answers k answer epoch found d.host config adopted
      · intro _ _ same
        cases same
  | @host _ host other moved =>
      refine ⟨inv.sound.step moved, inv.enclave, ?_, inv.snapshots_step moved, inv.answers,
        inv.unlocked_step moved⟩
      show host.config.KeysWellFormed
      rw [host_config_kept other moved]
      exact inv.host
  | @enclave _ enclave other moved =>
      refine ⟨inv.sound, ?_, inv.host, inv.snapshots, inv.answers, inv.unlocked⟩
      show enclave.config.KeysWellFormed
      rw [(enclave_config_kept other moved).1]
      exact inv.enclave

theorem KeysSafe.init (start : Int) {enclave : EnclaveServer}
    (wellFormed : enclave.config.KeysWellFormed) :
    KeysSafe (Deployment.init (.newHostServer start) enclave) where
  sound := .init start
  enclave := wellFormed
  host := fun _ among => absurd among List.not_mem_nil
  snapshots := fun _ among => absurd among List.not_mem_nil
  answers := fun _ _ _ found => by cases found
  unlocked := rfl

end

/-- A host and an enclave with well-formed keys, or none, are started together. In every run in
which each configuration that the enclave installs has well-formed keys, whether by POST or by
a quorum of votes, no request body makes a signature check panic, under the configuration of
either program or under one that a goroutine of the host has read, and the mutex of the host is
free whenever no goroutine is in its section. -/
theorem signature_checks_in_domain (p : Platform) (flags : HostFlags) (start : Int)
    (enclave : EnclaveServer) (wellFormed : enclave.config.KeysWellFormed)
    (ls : List DeploymentLabel) (d : Deployment)
    (run : Run (Deployment.step p flags) (Deployment.InstallsWellFormed p)
      (Deployment.init (.newHostServer start) enclave) ls d) :
    d.host.config.ChecksInDomain p.toCrypto ∧ d.enclave.config.ChecksInDomain p.toCrypto ∧
      (∀ config ∈ d.host.snapshots, config.ChecksInDomain p.toCrypto) ∧
      d.host.locked = false := by
  have inv : KeysSafe d :=
    run.invariant (.init start wellFormed) fun _ _ _ inv installs taken => inv.step installs taken
  exact ⟨inv.host.checksInDomain, inv.enclave.checksInDomain,
    fun config among => (inv.snapshots config among).checksInDomain, inv.unlocked⟩

/-- The request that the enclave handles carries well-formed keys, if any. -/
def Deployment.carriesWellFormed (d : Deployment) : DeploymentLabel → Bool
  | .serve k _ _ =>
      match d.exchanges[k]? with
      | some (.forwarded (.config (.set _ (.config newConfig _)))) => newConfig.KeysWellFormed
      | some (.forwarded (.config (.update (.config newConfig _)))) => newConfig.KeysWellFormed
      | _ => true
  | _ => true

theorem Deployment.installsWellFormed_of_carries {p : Platform} {d : Deployment}
    {l : DeploymentLabel} (carries : d.carriesWellFormed l = true) : d.InstallsWellFormed p l := by
  cases l with
  | serve k now attestor =>
      intro request newConfig found applies
      unfold Deployment.carriesWellFormed at carries
      cases applies with
      | set _ => simpa only [found, decide_eq_true_eq] using carries
      | update _ _ => simpa only [found, decide_eq_true_eq] using carries
  | _ => trivial

namespace Sample

/-- A configuration with one signer, whose key is one byte. -/
def shortKey : EnclaveConfig := ⟨one (one 1), ∅, 1, 0⟩

/-- The configuration is posted and adopted, and a signed request arrives and is checked. -/
def posting (newConfig : EnclaveConfig) : List DeploymentLabel :=
  [.forward (.config (.set .post (.config newConfig ∅))), .serve 0 0 (.ok ∅), .receive 0 0,
    .host (hostLabel 0 (.arrive .post (.request (signedRequest 1)))),
    .host (hostLabel 0 (.enter 0))]

end Sample

section

open Sample

/-- A configuration with four keys of the right length is posted. -/
theorem signature_checks_in_domain_posted :
    ∃ d, Run (Deployment.step platform flags) (Deployment.InstallsWellFormed platform) deployment
        (posting (config 0)) d ∧ d.host.config = config 0 ∧
      d.host.config.ChecksInDomain platform.toCrypto ∧ d.host.locked = false := by
  have found : ∃ d, Run (Deployment.step platform flags)
      (fun d l => d.carriesWellFormed l = true) deployment (posting (config 0)) d ∧
      d.host.config = config 0 :=
    Run.exists_of_exec (by decide +kernel)
  obtain ⟨d, carries, adopted⟩ := found
  have run : Run (Deployment.step platform flags) (Deployment.InstallsWellFormed platform)
      deployment (posting (config 0)) d := carries.mono fun _ _ => installsWellFormed_of_carries
  obtain ⟨host, _, _, unlocked⟩ := signature_checks_in_domain platform flags 0
    (.newEnclaveServer .zero false false (.newBoxKeychain defaultKeypairExpiration) 0)
    (by decide) _ d run
  exact ⟨d, run, adopted, host, unlocked⟩

/-- The configuration with the one short key is posted. The check of the first request panics,
and the mutex stays locked. -/
theorem mutex_never_released :
    ∃ d, Run (Deployment.step platform flags) anyStep deployment (posting shortKey) d ∧
      d.host.locked = true ∧ d.host.config = shortKey ∧ d.enclave.config = shortKey :=
  Run.exists_of_exec (by decide +kernel)

end

end ConfidentialCompute
